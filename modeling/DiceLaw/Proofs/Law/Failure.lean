import DiceLaw.Proofs.Law.Support

/-!
# Where a formula has no law

A formula has a law unless a joint in it fails by itself: a division one of whose divisors comes out
at zero, or a sampling whose count, the sampling of the parts so far, comes out below zero. Parts
are looked at from left to right, and before what they are part of. The first joint that fails is
the one whose cause is told.

## Main definitions

* `Formula.nodes`: a formula and all formulas in it, in the order in which they are looked at
* `Formula.Offends`: a formula fails by itself, whatever its parts do
* `Formula.FirstOffence`: the first of some formulas that fails by itself

## Main results

* `Formula.law_of_mem_nodes`: where a formula has a law, all formulas in it have one
* `Formula.firstOffence_of_law`: the cause that is told is that of the first joint that fails
* `Formula.law_fails_at_first_offence`: which formulas have a law, and the cause for the others
-/

namespace DiceLaw

namespace Table

variable {t count sample : Table} {rest : List Table} {op : Operator} {e : LawError}

/-! ## Tables that are taken together -/

/-- Tables that fail to be taken together have done well up to the table at which they fail. -/
theorem exists_of_chain_eq_error {f : Table → Table → Except LawError Table} {first : Table}
    (h : chain f (first :: rest) = .error e) :
    ∃ before next after u, rest = before ++ next :: after ∧ chain f (first :: before) = .ok u ∧
      f u next = .error e := by
  induction rest generalizing first with
  | nil => cases h
  | cons next rest ih =>
    rcases Except.bind_eq_error.1 h with hnext | ⟨t, ht, h⟩
    · exact ⟨[], next, rest, first, rfl, rfl, hnext⟩
    · obtain ⟨before, other, after, u, rfl, hu, hother⟩ := ih h
      exact ⟨next :: before, other, after, u, rfl, Except.bind_eq_ok.2 ⟨t, ht, hu⟩, hother⟩

/-- Tables that are taken together have been taken together up to each one of them. -/
theorem exists_of_chain_eq_ok {f : Table → Table → Except LawError Table} {first next : Table}
    {before after : List Table} (h : chain f (first :: (before ++ next :: after)) = .ok t) :
    ∃ u w, chain f (first :: before) = .ok u ∧ f u next = .ok w := by
  rw [chain, List.foldlM_append] at h
  obtain ⟨u, hu, h⟩ := Except.bind_eq_ok.1 h
  obtain ⟨w, hw, -⟩ := Except.bind_eq_ok.1 h
  exact ⟨u, w, hu, hw⟩

/-- Tables fail under an operator only if they are divided and a divisor can be zero. -/
theorem of_convolveAll_eq_error {first : Table} (hoccupied : ∀ t ∈ first :: rest, t.outcomes ≠ [])
    (h : convolveAll op (first :: rest) = .error e) :
    e = .divisionByZero ∧ op = .quotient ∧ ∃ t ∈ rest, 0 ∈ t.outcomes := by
  obtain ⟨hfirst, hrest⟩ := List.forall_mem_cons.1 hoccupied
  have hall : convolveAll op (first :: rest) = _ := foldlM_convolve hfirst hrest
  rw [hall] at h
  split at h
  · rename_i hfails
    exact ⟨(Except.error.inj h).symm, hfails⟩
  · cases h

/-- A sampling fails only if a count is below zero, and the least count is told. -/
theorem of_sampleSum_eq_error (h : sampleSum count sample = .error e) :
    ∃ m < 0, IsLeast count.support m ∧ e = .negativeCount m := by
  by_cases hneg : ∃ c ∈ count.outcomes, c < 0
  · obtain ⟨m, hm, hleast, herror⟩ := sampleSum_eq_error sample hneg
    obtain ⟨c, hc, hlt⟩ := hneg
    rw [herror] at h
    exact ⟨m, Int.lt_of_le_of_lt (hleast c hc) hlt, ⟨hm, hleast⟩, (Except.error.inj h).symm⟩
  · rw [sampleSum_eq_mixture sample fun c hc => Int.not_lt.1 fun hlt => hneg ⟨c, hc, hlt⟩] at h
    cases h

end Table

namespace Formula

variable {f first part next : Formula} {rest before after : List Formula} {joint : Joint}
  {t : Table} {ts : List Table} {e k : LawError}

/-! ## Laws of several parts -/

/-- The laws of parts in front of a part are the tables in front of its table. -/
theorem laws_append_eq_ok (h : laws (before ++ next :: after) = .ok ts) :
    ∃ us u ws, laws before = .ok us ∧ law next = .ok u ∧ ts = us ++ u :: ws := by
  induction before generalizing ts with
  | nil =>
    obtain ⟨u, ws, hu, -, rfl⟩ := laws_cons_eq_ok.1 h
    exact ⟨[], u, ws, rfl, hu, rfl⟩
  | cons f before ih =>
    obtain ⟨w, tail, hw, htail, rfl⟩ := laws_cons_eq_ok.1 h
    obtain ⟨us, u, ws, hus, hu, rfl⟩ := ih htail
    exact ⟨w :: us, u, ws, laws_cons_eq_ok.2 ⟨w, us, hw, hus, rfl⟩, hu, rfl⟩

theorem exists_parts_of_append {us ws : List Table} {u : Table}
    (h : laws rest = .ok (us ++ u :: ws)) :
    ∃ before next after, rest = before ++ next :: after ∧ laws before = .ok us ∧
      law next = .ok u := by
  induction us generalizing rest with
  | nil =>
    cases rest with
    | nil => cases h
    | cons next after =>
      obtain ⟨w, tail, hw, -, heq⟩ := laws_cons_eq_ok.1 h
      obtain ⟨rfl, -⟩ := List.cons.inj heq
      exact ⟨[], next, after, rfl, rfl, hw⟩
  | cons w us ih =>
    cases rest with
    | nil => cases h
    | cons f rest =>
      obtain ⟨x, tail, hx, htail, heq⟩ := laws_cons_eq_ok.1 h
      obtain ⟨rfl, rfl⟩ := List.cons.inj heq
      obtain ⟨before, next, after, rfl, hbefore, hnext⟩ := ih htail
      exact ⟨f :: before, next, after, rfl, laws_cons_eq_ok.2 ⟨w, us, hx, hbefore, rfl⟩, hnext⟩

theorem exists_law_of_mem (h : laws rest = .ok ts) (hpart : part ∈ rest) :
    ∃ u ∈ ts, law part = .ok u := by
  obtain ⟨before, after, rfl⟩ := List.append_of_mem hpart
  obtain ⟨us, u, ws, -, hu, rfl⟩ := laws_append_eq_ok h
  exact ⟨u, by simp, hu⟩

theorem exists_part_of_mem {u : Table} (h : laws rest = .ok ts) (hu : u ∈ ts) :
    ∃ part ∈ rest, law part = .ok u := by
  obtain ⟨us, ws, rfl⟩ := List.append_of_mem hu
  obtain ⟨before, next, after, rfl, -, hnext⟩ := exists_parts_of_append h
  exact ⟨next, by simp, hnext⟩

/-- The laws of parts have outcomes. -/
theorem outcomes_ne_nil_of_laws {u : Table} {us : List Table} (hfirst : law first = .ok u)
    (hrest : laws rest = .ok us) : ∀ t ∈ u :: us, t.outcomes ≠ [] :=
  List.forall_mem_cons.2 ⟨(isDistribution_law first hfirst).outcomes_ne_nil, fun t ht =>
    (isDistribution_laws rest hrest t ht).outcomes_ne_nil⟩

/-! ## Joints with a law -/

/-- No divisor of a quotient that has a law comes out at zero. -/
theorem zero_notMem_of_law (h : law (.join .quotient first rest) = .ok t) :
    ∀ part ∈ rest, 0 ∉ part.support := by
  obtain ⟨u, us, hu, hus, h⟩ := law_join_eq_ok.1 h
  intro part hpart hzero
  obtain ⟨w, hw, hlaw⟩ := exists_law_of_mem hus hpart
  rw [← support_law part hlaw] at hzero
  obtain ⟨hoccupied, hothers⟩ := List.forall_mem_cons.1 (outcomes_ne_nil_of_laws hu hus)
  have herror : Joint.quotient.law (u :: us) = _ := Table.foldlM_convolve hoccupied hothers
  rw [herror, if_pos ⟨rfl, w, hw, hzero⟩] at h
  cases h

/-- No count of a sampling that has a law is below zero: the parts in front of each part have a law
when they are sampled, and do not come out below zero. -/
theorem nonneg_of_law (h : law (.join .sampleSum first (before ++ next :: after)) = .ok t) :
    ∀ v ∈ support (.join .sampleSum first before), 0 ≤ v := by
  obtain ⟨u, us, hu, hus, h⟩ := law_join_eq_ok.1 h
  obtain ⟨counts, w, tail, hcounts, hw, rfl⟩ := laws_append_eq_ok hus
  obtain ⟨count, x, hcount, hx⟩ := Table.exists_of_chain_eq_ok h
  have hlaw : law (.join .sampleSum first before) = .ok count :=
    law_join_eq_ok.2 ⟨u, counts, hu, hcounts, hcount⟩
  rw [← support_law _ hlaw]
  exact Table.nonneg_of_sampleSum hx

/-! ## Joints that fail by themselves -/

/-- A formula fails by itself. -/
inductive Offends : Formula → LawError → Prop
  /-- A part after the first one of a quotient comes out at zero. -/
  | division {first part : Formula} {rest : List Formula} (hpart : part ∈ rest)
      (hzero : 0 ∈ part.support) : Offends (.join .quotient first rest) .divisionByZero
  /-- The sampling of some first parts, but not of fewer, comes out below zero, and there is a part
  to be sampled after them. The least number is told. -/
  | count {first next : Formula} {before after : List Formula} {m : Int}
      (hearlier : ∀ earlier part later, before = earlier ++ part :: later →
        ∀ v ∈ support (.join .sampleSum first earlier), 0 ≤ v)
      (hleast : IsLeast (support (.join .sampleSum first before)) m) (hneg : m < 0) :
      Offends (.join .sampleSum first (before ++ next :: after)) (.negativeCount m)

/-- A formula with a law does not fail by itself. -/
theorem not_offends_of_law (h : law f = .ok t) : ¬ Offends f e := by
  intro hoffends
  cases hoffends with
  | division hpart hzero => exact zero_notMem_of_law h _ hpart hzero
  | count _ hleast hneg => exact Int.not_le.2 hneg (nonneg_of_law h _ hleast.1)

/-- A joint without a law, all parts of which have one, fails by itself. -/
theorem offends_of_law {u : Table} {us : List Table} (hfirst : law first = .ok u)
    (hrest : laws rest = .ok us) (h : joint.law (u :: us) = .error e) :
    Offends (.join joint first rest) e := by
  have hoccupied := outcomes_ne_nil_of_laws hfirst hrest
  cases joint with
  | quotient =>
    obtain ⟨rfl, -, w, hw, hzero⟩ := Table.of_convolveAll_eq_error hoccupied h
    obtain ⟨part, hpart, hlaw⟩ := exists_part_of_mem hrest hw
    refine .division hpart ?_
    rw [← support_law part hlaw]
    exact hzero
  | sampleSum =>
    -- the tables up to the failure are the laws of parts, and so is their sampling
    obtain ⟨counts, w, tail, count, rfl, hcount, hfails⟩ := Table.exists_of_chain_eq_error h
    obtain ⟨before, next, after, rfl, hbefore, -⟩ := exists_parts_of_append hrest
    have hlaw : law (.join .sampleSum first before) = .ok count :=
      law_join_eq_ok.2 ⟨u, counts, hfirst, hbefore, hcount⟩
    obtain ⟨m, hneg, hleast, rfl⟩ := Table.of_sampleSum_eq_error hfails
    rw [support_law _ hlaw] at hleast
    refine .count ?_ hleast hneg
    rintro earlier part later rfl
    exact nonneg_of_law hlaw
  | sum | product | max | min =>
    obtain ⟨-, hop, -⟩ := Table.of_convolveAll_eq_error hoccupied h
    cases hop

/-- A formula fails by itself for one cause only. -/
theorem Offends.unique (h : Offends f e) (h' : Offends f k) : e = k := by
  cases h with
  | division => cases h'; rfl
  | @count first next before after m hearlier hleast hneg =>
    generalize hrest : before ++ next :: after = rest at h'
    cases h' with
    | @count _ next' before' after' m' hearlier' hleast' hneg' =>
      -- of the two samplings none goes further than the other one, since both are the first
      -- to come out below zero
      rcases List.append_eq_append_iff.1 hrest with ⟨more, hbefore, -⟩ | ⟨more, hbefore, -⟩
      · cases more with
        | nil =>
          rw [List.append_nil] at hbefore
          rw [hbefore] at hleast'
          rw [hleast.unique hleast']
        | cons x more =>
          exact absurd (hearlier' before x more hbefore m hleast.1) (Int.not_le.2 hneg)
      · cases more with
        | nil =>
          rw [List.append_nil] at hbefore
          rw [hbefore] at hleast
          rw [hleast.unique hleast']
        | cons x more =>
          exact absurd (hearlier before' x more hbefore m' hleast'.1) (Int.not_le.2 hneg')

/-! ## The first failure -/

mutual

/-- A formula and all formulas in it: parts from left to right, before what they are part of. -/
def nodes : Formula → List Formula
  | .constant value => [.constant value]
  | .die d => [.die d]
  | .join joint first rest => nodes first ++ nodesAll rest ++ [.join joint first rest]
  | .absolute body => nodes body ++ [.absolute body]
  | .explode body threshold limit => nodes body ++ [.explode body threshold limit]

/-- Several formulas and all formulas in them, from left to right. -/
def nodesAll : List Formula → List Formula
  | [] => []
  | f :: rest => nodes f ++ nodesAll rest

end

/-- The first of some formulas that fails by itself fails for the cause. -/
inductive FirstOffence : List Formula → LawError → Prop
  | here {f : Formula} {rest : List Formula} {e : LawError} (h : Offends f e) :
      FirstOffence (f :: rest) e
  | later {f : Formula} {rest : List Formula} {e : LawError} (hf : ∀ k, ¬ Offends f k)
      (h : FirstOffence rest e) : FirstOffence (f :: rest) e

namespace FirstOffence

variable {fs gs : List Formula}

theorem append_left (h : FirstOffence fs e) (gs : List Formula) : FirstOffence (fs ++ gs) e := by
  induction h with
  | here h => exact .here h
  | later hf _ ih => exact .later hf ih

theorem append_right (hfs : ∀ f ∈ fs, ∀ k, ¬ Offends f k) (h : FirstOffence gs e) :
    FirstOffence (fs ++ gs) e := by
  induction fs with
  | nil => exact h
  | cons f fs ih =>
    exact .later (hfs f List.mem_cons_self) (ih fun g hg => hfs g (List.mem_cons_of_mem _ hg))

theorem exists_mem (h : FirstOffence fs e) : ∃ f ∈ fs, Offends f e := by
  induction h with
  | here h => exact ⟨_, List.mem_cons_self, h⟩
  | later _ _ ih =>
    obtain ⟨f, hf, hoffends⟩ := ih
    exact ⟨f, List.mem_cons_of_mem _ hf, hoffends⟩

theorem unique (h : FirstOffence fs e) (h' : FirstOffence fs k) : e = k := by
  induction h with
  | here h =>
    cases h' with
    | here h' => exact h.unique h'
    | later hf _ => exact absurd h (hf _)
  | later hf _ ih =>
    cases h' with
    | here h' => exact absurd h' (hf _)
    | later _ h' => exact ih h'

end FirstOffence

mutual

/-- Where a formula has a law, all formulas in it have one. -/
theorem law_of_mem_nodes : ∀ (f : Formula) {t : Table}, law f = .ok t →
    ∀ node ∈ nodes f, ∃ u, law node = .ok u
  | .constant value, t, h => by
    rw [nodes]
    exact List.forall_mem_singleton.2 ⟨t, h⟩
  | .die d, t, h => by
    rw [nodes]
    exact List.forall_mem_singleton.2 ⟨t, h⟩
  | .join joint first rest, t, h => by
    obtain ⟨u, us, hu, hus, -⟩ := law_join_eq_ok.1 h
    rw [nodes, List.forall_mem_append, List.forall_mem_append, List.forall_mem_singleton]
    exact ⟨⟨law_of_mem_nodes first hu, law_of_mem_nodesAll rest hus⟩, t, h⟩
  | .absolute body, t, h => by
    obtain ⟨u, hu, -⟩ := law_absolute_eq_ok.1 h
    rw [nodes, List.forall_mem_append, List.forall_mem_singleton]
    exact ⟨law_of_mem_nodes body hu, t, h⟩
  | .explode body threshold limit, t, h => by
    obtain ⟨u, hu, -⟩ := law_explode_eq_ok.1 h
    rw [nodes, List.forall_mem_append, List.forall_mem_singleton]
    exact ⟨law_of_mem_nodes body hu, t, h⟩

theorem law_of_mem_nodesAll : ∀ (fs : List Formula) {ts : List Table}, laws fs = .ok ts →
    ∀ node ∈ nodesAll fs, ∃ u, law node = .ok u
  | [], ts, h => by
    rw [nodesAll]
    exact fun _ hnode => absurd hnode List.not_mem_nil
  | f :: rest, ts, h => by
    obtain ⟨u, us, hu, hus, -⟩ := laws_cons_eq_ok.1 h
    rw [nodesAll, List.forall_mem_append]
    exact ⟨law_of_mem_nodes f hu, law_of_mem_nodesAll rest hus⟩

end

/-- Where a formula has a law, no formula in it fails by itself. -/
theorem not_offends_nodes (h : law f = .ok t) : ∀ node ∈ nodes f, ∀ k, ¬ Offends node k := by
  intro node hnode k
  obtain ⟨u, hu⟩ := law_of_mem_nodes f h node hnode
  exact not_offends_of_law hu

theorem not_offends_nodesAll (h : laws rest = .ok ts) :
    ∀ node ∈ nodesAll rest, ∀ k, ¬ Offends node k := by
  intro node hnode k
  obtain ⟨u, hu⟩ := law_of_mem_nodesAll rest h node hnode
  exact not_offends_of_law hu

mutual

/-- The cause for which a formula has no law is that of the first formula in it that fails by
itself. -/
theorem firstOffence_of_law : ∀ (f : Formula) {e : LawError}, law f = .error e →
    FirstOffence (nodes f) e
  | .constant value, e, h => by
    rw [law] at h
    cases h
  | .die d, e, h => by
    rw [law] at h
    cases h
  | .join joint first rest, e, h => by
    rw [law] at h
    rw [nodes]
    -- the first part, the other parts, and then the joint itself
    rcases Except.bind_eq_error.1 h with hfirst | ⟨u, hu, h⟩
    · exact ((firstOffence_of_law first hfirst).append_left _).append_left _
    · rcases Except.bind_eq_error.1 h with hrest | ⟨us, hus, h⟩
      · exact ((firstOffence_of_laws rest hrest).append_right (not_offends_nodes hu)).append_left _
      · have hparts : ∀ node ∈ nodes first ++ nodesAll rest, ∀ k, ¬ Offends node k :=
          List.forall_mem_append.2 ⟨not_offends_nodes hu, not_offends_nodesAll hus⟩
        exact .append_right hparts (.here (offends_of_law hu hus h))
  | .absolute body, e, h => by
    rw [law] at h
    rw [nodes]
    rcases Except.bind_eq_error.1 h with hbody | ⟨u, -, h⟩
    · exact (firstOffence_of_law body hbody).append_left _
    · cases h
  | .explode body threshold limit, e, h => by
    rw [law] at h
    rw [nodes]
    rcases Except.bind_eq_error.1 h with hbody | ⟨u, -, h⟩
    · exact (firstOffence_of_law body hbody).append_left _
    · cases h

theorem firstOffence_of_laws : ∀ (fs : List Formula) {e : LawError}, laws fs = .error e →
    FirstOffence (nodesAll fs) e
  | [], e, h => by
    rw [laws] at h
    cases h
  | f :: rest, e, h => by
    rw [laws] at h
    rw [nodesAll]
    rcases Except.bind_eq_error.1 h with hf | ⟨u, hu, h⟩
    · exact (firstOffence_of_law f hf).append_left _
    · rcases Except.bind_eq_error.1 h with hrest | ⟨us, -, h⟩
      · exact (firstOffence_of_laws rest hrest).append_right (not_offends_nodes hu)
      · cases h

end

/-- A formula has a law exactly if in no quotient in it a part after the first one comes out at
zero, and in no sampling in it the sampling of some parts, with a part left after them, comes out
below zero. The outcomes of the law are the numbers that the formula comes out at. Otherwise the
cause that is told is that of the first formula in it that fails by itself: a division by zero, or
the least number of a sampling that comes out below zero. -/
theorem law_fails_at_first_offence (f : Formula) :
    (∀ t, f.law = .ok t → ∀ v, v ∈ t.outcomes ↔ v ∈ f.support) ∧
    ((∃ t, f.law = .ok t) ↔
      (∀ first rest, .join .quotient first rest ∈ f.nodes → ∀ part ∈ rest, 0 ∉ part.support) ∧
      ∀ first before next after, .join .sampleSum first (before ++ next :: after) ∈ f.nodes →
        ∀ v ∈ support (.join .sampleSum first before), 0 ≤ v) ∧
    (∀ e, f.law = .error e ↔ FirstOffence f.nodes e) ∧
    ∀ e, f.law = .error e → e = .divisionByZero ∨ ∃ m < 0, e = .negativeCount m := by
  refine ⟨fun t h v => ?_, ⟨?_, ?_⟩, fun e => ⟨firstOffence_of_law f, fun h => ?_⟩, fun e h => ?_⟩
  · rw [← support_law f h]
    exact Iff.rfl
  · rintro ⟨t, h⟩
    refine ⟨fun first rest hnode => ?_, fun first before next after hnode => ?_⟩
    · obtain ⟨u, hu⟩ := law_of_mem_nodes f h _ hnode
      exact zero_notMem_of_law hu
    · obtain ⟨u, hu⟩ := law_of_mem_nodes f h _ hnode
      exact nonneg_of_law hu
  · rintro ⟨hquotient, hsampling⟩
    cases hlaw : f.law with
    | ok t => exact ⟨t, rfl⟩
    | error e =>
      -- what fails by itself breaks one of the two conditions
      obtain ⟨node, hnode, hoffends⟩ := (firstOffence_of_law f hlaw).exists_mem
      cases hoffends with
      | division hpart hzero => exact absurd hzero (hquotient _ _ hnode _ hpart)
      | count _ hleast hneg =>
        exact absurd (hsampling _ _ _ _ hnode _ hleast.1) (Int.not_le.2 hneg)
  · cases hlaw : f.law with
    | ok t =>
      obtain ⟨node, hnode, hoffends⟩ := h.exists_mem
      exact absurd hoffends (not_offends_nodes hlaw node hnode e)
    | error k => rw [(firstOffence_of_law f hlaw).unique h]
  · obtain ⟨node, -, hoffends⟩ := (firstOffence_of_law f h).exists_mem
    cases hoffends with
    | division => exact .inl rfl
    | count _ _ hneg => exact .inr ⟨_, hneg, rfl⟩

/-- In the sum of `(-2)xd6` and `1/0` the negative count comes first. -/
theorem law_fails_at_first_offence_of_negative_count :
    law (.join .sum (.join .sampleSum (.constant (-2)) [.die ⟨1, 6, by decide⟩])
        [.join .quotient (.constant 1) [.constant 0]]) = .error (.negativeCount (-2)) ∧
      (∃ t, law (.join .quotient (.constant 6) [.die ⟨1, 6, by decide⟩]) = .ok t) := by
  constructor
  · refine ((law_fails_at_first_offence _).2.2.1 _).2 ?_
    have hconstant : ∀ k, ¬ Offends (.constant (-2)) k := fun k h => by cases h
    have hdie : ∀ k, ¬ Offends (.die ⟨1, 6, by decide⟩) k := fun k h => by cases h
    have hleast : IsLeast (support (.join .sampleSum (.constant (-2)) [])) (-2) := isLeast_singleton
    -- the number and the die come before the sampling, and its first part alone is its count
    refine .later hconstant (.later hdie (.here ?_))
    exact .count (fun earlier part later h => by simp at h) hleast (by decide)
  · refine (law_fails_at_first_offence _).2.1.2 ⟨?_, ?_⟩
    · intro first rest hnode part hpart
      obtain ⟨rfl, rfl⟩ : first = .constant 6 ∧ rest = [.die ⟨1, 6, by decide⟩] := by
        simpa [nodes, nodesAll] using hnode
      obtain rfl := List.mem_singleton.1 hpart
      exact fun hzero => absurd hzero.1 (by decide)
    · intro first before next after hnode
      simp [nodes, nodesAll] at hnode

end Formula

end DiceLaw
