import HypervisorBase.Stage2.Queries
/-!
# Who owns the pool

All VMs allocate their tables from one pool. `poolStep` interleaves the
calls of any number of VMs with arbitrary 64-bit arguments, each
`s2_create` bringing in the next VM as `vm_create`, its only caller,
does. The forest invariant is read back in the terms of the code: every
page handed out is one VM's root or the target of one valid slot of one
VM's tables, valid slots point into the pool, and a call on one VM is
invisible in the tables of every other.
-/

namespace HypervisorBase

namespace Stage2

/-- The L1 table of a VM and the L2 tables its valid slots point to. -/
def UpperTable (s : S2State) (roots : List U64) (v : ℕ) (t : U64) : Prop :=
  roots[v]? = some t ∨ ∃ r i, roots[v]? = some r ∧ entry s r i &&& 1 ≠ 0 ∧
    entry s r i &&& addrMask = t

/-- A valid slot of an upper-level table, and where it points. -/
def PointsTo (s : S2State) (roots : List U64) (v : ℕ) (t : U64) (i : Idx) (n : U64) : Prop :=
  UpperTable s roots v t ∧ entry s t i &&& 1 ≠ 0 ∧ entry s t i &&& addrMask = n

variable {s s' : S2State} {roots : List U64}

/-! ## Reading the forest back -/

variable {i : Idx} {n t : U64}

theorem child_eq_some :
    child s t i = some n ↔ entry s t i &&& 1 ≠ 0 ∧ entry s t i &&& addrMask = n := by
  unfold child
  split
  · rename_i h; simp only [reduceCtorEq, false_iff, not_and]; exact fun hn => absurd h hn
  · rename_i h; simp only [Option.some.injEq]; exact ⟨fun hn => ⟨h, hn⟩, And.right⟩

variable {v : ℕ}

/-- Upper-level tables are the nodes above full depth. -/
theorem upperTable_iff : UpperTable s roots v t ↔
    ∃ p : List Idx, p.length < 2 ∧ reach (fun v : ℕ => roots[v]?) (child s) v p = some t := by
  constructor
  · rintro (hr | ⟨r, i, hr, hv, ht⟩)
    · exact ⟨[], by simp, by rw [reach_nil, hr]⟩
    · refine ⟨[i], by simp, ?_⟩
      rw [reach_of_root hr, follow_cons, child_eq_some.2 ⟨hv, ht⟩]
      rfl
  · rintro ⟨p, hp, h⟩
    match p, hp with
    | [], _ => rw [reach_nil] at h; exact Or.inl h
    | [i], _ =>
      obtain ⟨r, hr, h⟩ := Option.bind_eq_some_iff.mp h
      rw [follow_cons] at h
      obtain ⟨m, hm, h⟩ := Option.bind_eq_some_iff.mp h
      obtain rfl := Option.some.inj h
      exact Or.inr ⟨r, i, hr, child_eq_some.1 hm⟩

/-- The pointers between tables, by paths from a root. -/
theorem pointsTo_iff : PointsTo s roots v t i n ↔
    ∃ p : List Idx, p.length < 2 ∧
      reach (fun v : ℕ => roots[v]?) (child s) v p = some t ∧ child s t i = some n := by
  unfold PointsTo
  rw [upperTable_iff, ← child_eq_some]
  constructor
  · rintro ⟨⟨p, hp, ht⟩, hn⟩; exact ⟨p, hp, ht, hn⟩
  · rintro ⟨p, hp, ht, hn⟩; exact ⟨⟨p, hp, ht⟩, hn⟩

/-- A pointer ends a path one longer. -/
theorem reach_of_pointsTo (h : PointsTo s roots v t i n) :
    ∃ p : List Idx, p.length < 2 ∧ reach (fun v : ℕ => roots[v]?) (child s) v p = some t ∧
      reach (fun v : ℕ => roots[v]?) (child s) v (p ++ [i]) = some n := by
  obtain ⟨p, hp, ht, hn⟩ := pointsTo_iff.1 h
  exact ⟨p, hp, ht, by rw [reach_concat, ht, Option.bind_some, hn]⟩

section Pool

variable [P : PtPool]

/-- **Valid slots point into the allocated pool.** -/
theorem Shape.allocated_of_pointsTo (h : Shape s roots)
    (hn : PointsTo s roots v t i n) : Allocated s n := by
  obtain ⟨p, hp, -, hreach⟩ := reach_of_pointsTo hn
  exact h.forest.closed (by simp; omega) hreach

/-- Two pointers to one page are one slot. -/
theorem Shape.pointsTo_unique (h : Shape s roots) {v' : ℕ} {t' : U64} {i' : Idx}
    (hn : PointsTo s roots v t i n) (hn' : PointsTo s roots v' t' i' n) :
    v = v' ∧ t = t' ∧ i = i' := by
  obtain ⟨p, hp, ht, hreach⟩ := reach_of_pointsTo hn
  obtain ⟨p', hp', ht', hreach'⟩ := reach_of_pointsTo hn'
  obtain ⟨rfl, hpath⟩ := h.forest.unique (by simp; omega) (by simp; omega) hreach hreach'
  obtain ⟨rfl, hi⟩ := List.append_inj' hpath rfl
  rw [ht] at ht'
  exact ⟨rfl, Option.some.inj ht', by simpa using hi⟩

/-- A root is no slot's target. -/
theorem Shape.not_pointsTo_root (h : Shape s roots) {v' : ℕ}
    (hr : roots[v]? = some n) : ¬ PointsTo s roots v' t i n := by
  intro hn
  obtain ⟨p, hp, -, hreach⟩ := reach_of_pointsTo hn
  have hroot : reach (fun v : ℕ => roots[v]?) (child s) v [] = some n := by rw [reach_nil, hr]
  obtain ⟨-, hpath⟩ := h.forest.unique (by simp) (by simp; omega) hroot hreach
  simp at hpath

/-- **Every page handed out has one owner.** -/
theorem Shape.owner (h : Shape s roots) (hn : Allocated s n) :
    ((∃! v : ℕ, roots[v]? = some n) ∧ ∀ v t i, ¬ PointsTo s roots v t i n) ∨
      ((∀ v : ℕ, roots[v]? ≠ some n) ∧
        ∃! x : ℕ × U64 × Idx, PointsTo s roots x.1 x.2.1 x.2.2 n) := by
  obtain ⟨v, p, hp, hreach⟩ := h.forest.owned hn
  rcases List.eq_nil_or_concat p with rfl | ⟨q, i, rfl⟩
  · have hr : roots[v]? = some n := by rwa [reach_nil] at hreach
    refine Or.inl ⟨⟨v, hr, fun w hw => ?_⟩, fun v' t i => h.not_pointsTo_root hr⟩
    have hw : reach (fun v : ℕ => roots[v]?) (child s) w [] = some n := by rwa [reach_nil]
    exact (h.forest.unique (by simp) (by simp) hw hreach).1
  · rw [List.concat_eq_append] at hp hreach
    simp only [List.length_append, List.length_cons, List.length_nil] at hp
    obtain ⟨t, ht, htn⟩ := reach_take_isSome hreach
    have hpt : PointsTo s roots v t i n := pointsTo_iff.2 ⟨q, by omega, ht, htn⟩
    refine Or.inr ⟨fun w hw => h.not_pointsTo_root hw hpt, ⟨(v, t, i), hpt, ?_⟩⟩
    rintro ⟨w, t', i'⟩ hw
    obtain ⟨rfl, rfl, rfl⟩ := h.pointsTo_unique hw hpt
    rfl

/-! ## Any interleaving -/

/-- A call on the tables of one of several VMs. -/
inductive PoolOp
  | create
  | map (v : ℕ) (ipa pa sz flags : U64)
  | unmap (v : ℕ) (ipa sz : U64)

/-- One call: the heap, and the `s2_pgd` of each VM in the order of
creation. A VM that does not exist is a null pointer, which both functions
refuse. -/
def poolStep (st : S2State × List U64) : PoolOp → Option (S2State × List U64)
  | .create => do
      let ((pgd, _), s) ← s2Create st.1
      pure (s, st.2 ++ [pgd])
  | .map v ipa pa sz flags =>
    match st.2[v]? with
    | none => some st
    | some pgd => do
        let (_, s) ← s2Map st.1 pgd ipa pa sz flags
        pure (s, st.2)
  | .unmap v ipa sz =>
    match st.2[v]? with
    | none => some st
    | some pgd => some ((s2Unmap st.1 pgd ipa sz).2, st.2)

/-- The VM a call is made on, if it is made on one. -/
def PoolOp.target : PoolOp → Option ℕ
  | .create => none
  | .map v _ _ _ _ => some v
  | .unmap v _ _ => some v

/-- What a call can do to the heap and the VMs' address spaces. -/
theorem poolStep_refines {st st' : S2State × List U64} {M : ℕ → Space} {op : PoolOp}
    (h : Refines st.1 st.2 M) (hrun : poolStep st op = some st') :
    ∃ M', Refines st'.1 st'.2 M' ∧ ∀ (w : ℕ) q, st.2[w]? = some q → op.target ≠ some w →
      st'.2[w]? = some q ∧ M' w = M w := by
  have hself : ∀ {v m}, ∀ (w : ℕ) q, st.2[w]? = some q → some v ≠ some w →
      st.2[w]? = some q ∧ Function.update M v m w = M w := by
    intro v m w q hq hw
    exact ⟨hq, Function.update_of_ne (fun hc => hw (congrArg some hc.symm)) _ _⟩
  cases op with
  | create =>
    obtain ⟨⟨⟨pgd, vttbr⟩, s⟩, hc, hrun⟩ := Option.bind_eq_some_iff.mp hrun
    obtain rfl := Option.some.inj hrun
    refine ⟨_, s2Create_refines h hc, fun w q hq _ => ?_⟩
    have hlt : w < st.2.length := (List.getElem?_eq_some_iff.mp hq).1
    exact ⟨by rwa [List.getElem?_append_left hlt], Function.update_of_ne (by omega) _ _⟩
  | map v ipa pa sz flags =>
    simp only [poolStep] at hrun
    split at hrun
    · obtain rfl := Option.some.inj hrun
      exact ⟨M, h, fun w q hq _ => ⟨hq, rfl⟩⟩
    · rename_i pgd hpgd
      obtain ⟨⟨e, s⟩, hc, hrun⟩ := Option.bind_eq_some_iff.mp hrun
      obtain rfl := Option.some.inj hrun
      obtain ⟨m, hm⟩ := s2Map_refines h hpgd hc
      exact ⟨_, hm, hself⟩
  | unmap v ipa sz =>
    simp only [poolStep] at hrun
    split at hrun
    · obtain rfl := Option.some.inj hrun
      exact ⟨M, h, fun w q hq _ => ⟨hq, rfl⟩⟩
    · rename_i pgd hpgd
      obtain rfl := Option.some.inj hrun
      exact ⟨_, s2Unmap_refines h hpgd ipa sz, hself⟩

/-- The shape along a run. -/
theorem exec_poolStep_shape {mem : U64 → U64} {st : S2State × List U64} {ops : List PoolOp}
    (hrun : exec poolStep (tableInit mem, []) ops = some st) : Shape st.1 st.2 := by
  have hstep : ∀ (st : S2State × List U64) op st', Shape st.1 st.2 →
      poolStep st op = some st' → Shape st'.1 st'.2 := by
    intro st op st' h hstep
    obtain ⟨M', hM', -⟩ := poolStep_refines h.refines hstep
    exact hM'.shape
  exact exec_invariant hstep (refines_tableInit mem).shape hrun

/-- **The pool is a forest and VMs do not interfere.** In the heap any
interleaving of calls has built, every page handed out is the root of one
VM or the target of one valid slot of one VM's upper tables, every such
slot points to a page handed out, and one more call leaves the walk and
the overlap query of every address of every other VM as they were. -/
theorem pool_ownership (mem : U64 → U64) (ops : List PoolOp) (s : S2State) (roots : List U64)
    (hrun : exec poolStep (tableInit mem, []) ops = some (s, roots)) :
    (∀ n, Allocated s n →
      ((∃! v : ℕ, roots[v]? = some n) ∧ ∀ v t i, ¬ PointsTo s roots v t i n) ∨
        ((∀ v : ℕ, roots[v]? ≠ some n) ∧
          ∃! x : ℕ × U64 × Idx, PointsTo s roots x.1 x.2.1 x.2.2 n)) ∧
    (∀ v t i n, PointsTo s roots v t i n → Allocated s n) ∧
    ∀ op s' roots', poolStep (s, roots) op = some (s', roots') →
      ∀ (w : ℕ) q j, roots[w]? = some q → op.target ≠ some w →
        roots'[w]? = some q ∧ (s2Walk s' q j).mapped = (s2Walk s q j).mapped ∧
          pageMapped s' q j = pageMapped s q j := by
  have hshape : Shape s roots := exec_poolStep_shape hrun
  refine ⟨fun n hn => hshape.owner hn, fun v t i n hn => hshape.allocated_of_pointsTo hn, ?_⟩
  intro op s' roots' hstep w q j hq hw
  obtain ⟨M', hM', hsame⟩ := poolStep_refines hshape.refines hstep
  obtain ⟨hq', hMw⟩ := hsame w q hq hw
  refine ⟨hq', ?_, ?_⟩
  · rw [s2Walk_mapped hM' hq', s2Walk_mapped hshape.refines hq, hMw]
  · rw [Bool.eq_iff_iff, pageMapped_iff hM' hq', pageMapped_iff hshape.refines hq, hMw]

end Pool

/-- Two VMs share the pool: each maps a page, and the second unmaps more
than it has. -/
theorem pool_ownership_two_vms :
    letI := poolAt2M
    ∃ st, exec poolStep (tableInit (fun _ => 0), [])
        [.create, .create, .map 0 0x1000 0x50001000 0x1000 0x7C0,
          .map 1 0x1000 0x60001000 0x1000 0x7C0, .unmap 1 0 0x3000] = some st ∧
      ∀ n, Allocated st.1 n →
        ((∃! v : ℕ, st.2[v]? = some n) ∧ ∀ v t i, ¬ PointsTo st.1 st.2 v t i n) ∨
          ((∀ v : ℕ, st.2[v]? ≠ some n) ∧
            ∃! x : ℕ × U64 × Idx, PointsTo st.1 st.2 x.1 x.2.1 x.2.2 n) := by
  let _ := poolAt2M
  have hsome : (exec poolStep (tableInit (fun _ => 0), [])
      [.create, .create, .map 0 0x1000 0x50001000 0x1000 0x7C0,
        .map 1 0x1000 0x60001000 0x1000 0x7C0, .unmap 1 0 0x3000]).isSome := by
    decide
  obtain ⟨⟨s, roots⟩, hst⟩ := Option.isSome_iff_exists.mp hsome
  exact ⟨(s, roots), hst, (pool_ownership _ _ s roots hst).1⟩

end Stage2

end HypervisorBase
