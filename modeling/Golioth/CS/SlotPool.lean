/-
# A pool of slots for handles

A system acquires handles from elsewhere. It passes a handle on, or gives it back at once,
or keeps it in a slot of a fixed pool; a slot is drained when its handle is given back, and is
free again some time later. Whatever is done in whatever order, the handles that come are the
ones that went and the ones in the slots. If no handle comes while it is in a slot, each handle
that came is in one slot, or was passed on, or was given back, and only one of these.
-/
import Golioth.CS.Ownership
import Mathlib.Algebra.BigOperators.Group.Finset.Piecewise
import Mathlib.Data.Fintype.BigOperators

namespace CS.SlotPool

/-- What is in a slot. -/
inductive Slot (δ : Type*)
  | free
  | holds (handle : δ)
  /-- The handle was given back, and the slot is not free yet. -/
  | drained
  deriving DecidableEq

/-- What is done with a handle. -/
inductive Event (δ : Type*)
  | acquired (handle : δ)
  | passed (handle : δ)
  | released (handle : δ)
  deriving DecidableEq

variable {ι δ : Type*} {may : δ → (ι → Slot δ) → Prop} {trace : List (Event δ)}
  {taken vacated : ℕ} {slots : ι → Slot δ} {handle : δ}

/-- A handle comes only while no slot holds it. -/
def Fresh (handle : δ) (slots : ι → Slot δ) : Prop := ∀ i, slots i ≠ .holds handle

/-- The use of a handle that an event is: passing a handle on ends it like giving it back. -/
def Event.use : Event δ → Ownership.Use δ
  | .acquired handle => .acquire handle
  | .passed handle => .release handle
  | .released handle => .release handle

theorem mem_map_use_acquire : .acquire handle ∈ trace.map Event.use ↔ .acquired handle ∈ trace := by
  rw [List.mem_map]
  constructor
  · rintro ⟨event, hmem, huse⟩
    cases event with
    | acquired other => rwa [Ownership.Use.acquire.inj huse] at hmem
    | passed other => cases huse
    | released other => cases huse
  · exact fun hmem => ⟨_, hmem, rfl⟩

/-- The handles in the slots. -/
def held (slots : ι → Slot δ) : Set δ := {handle | ∃ i, slots i = .holds handle}

theorem notMem_held_of_fresh (h : Fresh handle slots) : handle ∉ held slots := by
  rintro ⟨i, hholds⟩
  exact h i hholds

/-- No handle is in two slots. -/
def Distinct (slots : ι → Slot δ) : Prop :=
  ∀ i j handle, slots i = .holds handle → slots j = .holds handle → i = j

/-- How many slots have a property. -/
def count [Fintype ι] (p : Slot δ → Prop) [DecidablePred p] (slots : ι → Slot δ) : ℕ :=
  (Finset.univ.filter fun i => p (slots i)).card

theorem count_init [Fintype ι] (p : Slot δ → Prop) [DecidablePred p] (hfree : ¬ p .free) :
    count p (fun _ : ι => .free) = 0 := by
  rw [count, Finset.filter_false_of_mem fun _ _ => hfree, Finset.card_empty]

variable [DecidableEq ι]

/-- What the system makes of its slots: the handles so far, how often a slot was taken and vacated,
and the slots. `may` says which handles may come. -/
inductive Reached (may : δ → (ι → Slot δ) → Prop) :
    List (Event δ) → (taken vacated : ℕ) → (ι → Slot δ) → Prop
  | init : Reached may [] 0 0 fun _ => .free
  | pass {trace : List (Event δ)} {taken vacated : ℕ} {slots : ι → Slot δ} {handle : δ}
      (h : Reached may trace taken vacated slots) (hmay : may handle slots) :
      Reached may (trace ++ [.acquired handle, .passed handle]) taken vacated slots
  | refuse {trace : List (Event δ)} {taken vacated : ℕ} {slots : ι → Slot δ} {handle : δ}
      (h : Reached may trace taken vacated slots) (hmay : may handle slots) :
      Reached may (trace ++ [.acquired handle, .released handle]) taken vacated slots
  | take {trace : List (Event δ)} {taken vacated : ℕ} {slots : ι → Slot δ} {handle : δ} {i : ι}
      (h : Reached may trace taken vacated slots) (hmay : may handle slots)
      (hfree : slots i = .free) :
      Reached may (trace ++ [.acquired handle]) (taken + 1) vacated
        (Function.update slots i (.holds handle))
  | drain {trace : List (Event δ)} {taken vacated : ℕ} {slots : ι → Slot δ} {handle : δ} {i : ι}
      (h : Reached may trace taken vacated slots) (hholds : slots i = .holds handle) :
      Reached may (trace ++ [.released handle]) taken vacated (Function.update slots i .drained)
  | vacate {trace : List (Event δ)} {taken vacated : ℕ} {slots : ι → Slot δ} {i : ι}
      (h : Reached may trace taken vacated slots) (hdrained : slots i = .drained) :
      Reached may trace taken (vacated + 1) (Function.update slots i .free)

/-! ## Handles that are accounted for -/

theorem held_update_holds {i : ι} (hfree : slots i = .free) (handle : δ) :
    held (Function.update slots i (.holds handle)) = insert handle (held slots) := by
  ext other
  simp only [held, Set.mem_ofPred_eq, Set.mem_insert_iff]
  constructor
  · rintro ⟨j, hj⟩
    by_cases hji : j = i
    · rw [hji, Function.update_self] at hj
      exact .inl (Slot.holds.inj hj).symm
    · rw [Function.update_of_ne hji] at hj
      exact .inr ⟨j, hj⟩
  · rintro (rfl | ⟨j, hj⟩)
    · exact ⟨i, Function.update_self ..⟩
    · have hji : j ≠ i := by
        rintro rfl
        rw [hfree] at hj
        cases hj
      exact ⟨j, by rw [Function.update_of_ne hji]; exact hj⟩

theorem held_update_drained (hdistinct : Distinct slots) {i : ι} (hholds : slots i = .holds handle) :
    held (Function.update slots i .drained) = held slots \ {handle} := by
  ext other
  simp only [held, Set.mem_ofPred_eq, Set.mem_sdiff, Set.mem_singleton_iff]
  constructor
  · rintro ⟨j, hj⟩
    by_cases hji : j = i
    · rw [hji, Function.update_self] at hj
      cases hj
    · rw [Function.update_of_ne hji] at hj
      refine ⟨⟨j, hj⟩, ?_⟩
      rintro rfl
      exact hji (hdistinct j i other hj hholds)
  · rintro ⟨⟨j, hj⟩, hne⟩
    have hji : j ≠ i := by
      rintro rfl
      exact hne (Slot.holds.inj (hj.symm.trans hholds))
    exact ⟨j, by rw [Function.update_of_ne hji]; exact hj⟩

theorem held_update_free {i : ι} (hdrained : slots i = .drained) :
    held (Function.update slots i .free) = held slots := by
  ext other
  simp only [held, Set.mem_ofPred_eq]
  refine exists_congr fun j => ?_
  by_cases hji : j = i
  · rw [hji, Function.update_self, hdrained]
    simp
  · rw [Function.update_of_ne hji]

theorem Distinct.update (h : Distinct slots) {i : ι} {slot : Slot δ}
    (hnew : ∀ handle, slot = .holds handle → Fresh handle slots) :
    Distinct (Function.update slots i slot) := by
  intro j k handle hj hk
  by_cases hji : j = i <;> by_cases hki : k = i
  · exact hji.trans hki.symm
  · rw [hji, Function.update_self] at hj
    rw [Function.update_of_ne hki] at hk
    exact absurd hk (hnew handle hj k)
  · rw [hki, Function.update_self] at hk
    rw [Function.update_of_ne hji] at hj
    exact absurd hj (hnew handle hk j)
  · rw [Function.update_of_ne hji] at hj
    rw [Function.update_of_ne hki] at hk
    exact h j k handle hj hk

/-- The slots account for the handles, each in one of them at most. -/
theorem Reached.accounts (h : Reached Fresh trace taken vacated slots) :
    Ownership.Accounts (trace.map Event.use) (held slots) ∧ Distinct slots := by
  have hsettled : ∀ {uses : List (Ownership.Use δ)} {held : Set δ} {handle : δ},
      Ownership.Accounts uses held → handle ∉ held →
        Ownership.Accounts (uses ++ [.acquire handle] ++ [.release handle]) held := by
    intro uses held handle haccounts hfree
    have hback := (haccounts.acquire hfree).release (Set.mem_insert handle held)
    rwa [Set.insert_sdiff_self_of_notMem hfree] at hback
  induction h with
  | init =>
    have hnone : held (fun _ : ι => (.free : Slot δ)) = ∅ := by
      ext handle
      simp [held]
    rw [hnone]
    exact ⟨.nil, fun _ _ _ hi => by cases hi⟩
  | pass _ hmay ih =>
    refine ⟨?_, ih.2⟩
    have hback := hsettled ih.1 (notMem_held_of_fresh hmay)
    simpa [Event.use] using hback
  | refuse _ hmay ih =>
    refine ⟨?_, ih.2⟩
    have hback := hsettled ih.1 (notMem_held_of_fresh hmay)
    simpa [Event.use] using hback
  | @take _ _ _ slots handle i _ hmay hfree ih =>
    refine ⟨?_, ih.2.update fun other hother => ?_⟩
    · rw [held_update_holds hfree, List.map_append]
      exact ih.1.acquire (notMem_held_of_fresh hmay)
    · rw [← Slot.holds.inj hother]
      exact hmay
  | drain _ hholds ih =>
    refine ⟨?_, ih.2.update fun other hother => by cases hother⟩
    rw [held_update_drained ih.2 hholds, List.map_append]
    exact ih.1.release ⟨_, hholds⟩
  | vacate _ hdrained ih =>
    refine ⟨?_, ih.2.update fun other hother => by cases hother⟩
    rw [held_update_free hdrained]
    exact ih.1

/-! ## Counting -/

section Counting

variable [Fintype ι]

/-- One slot more or less. -/
theorem count_update (p : Slot δ → Prop) [DecidablePred p] (slots : ι → Slot δ) (i : ι)
    (slot : Slot δ) :
    count p (Function.update slots i slot) + (if p (slots i) then 1 else 0) =
      count p slots + if p slot then 1 else 0 := by
  have hsum (slots : ι → Slot δ) : count p slots = ∑ j, if p (slots j) then 1 else 0 :=
    Finset.card_filter _ _
  have hmove : (fun j => if p (Function.update slots i slot j) then 1 else 0) =
      Function.update (fun j => if p (slots j) then 1 else 0) i (if p slot then 1 else 0) := by
    funext j
    by_cases hj : j = i
    · rw [hj, Function.update_self, Function.update_self]
    · rw [Function.update_of_ne hj, Function.update_of_ne hj]
  have hsplit := Finset.sum_eq_add_sum_sdiff_singleton_of_mem (Finset.mem_univ i)
    fun j => if p (slots j) then 1 else 0
  rw [hsum, hsum, hmove, Finset.sum_update_of_mem (Finset.mem_univ i), hsplit]
  omega

variable [DecidableEq δ]

/-- **Handles are neither lost nor doubled.** As often as a handle came it went, but for the slots
that hold it. -/
theorem Reached.balanced (h : Reached may trace taken vacated slots) (handle : δ) :
    trace.count (.acquired handle) =
      trace.count (.passed handle) + trace.count (.released handle) +
        count (· = .holds handle) slots := by
  induction h with
  | init =>
    rw [count_init _ (by simp)]
    rfl
  | @pass trace _ _ slots other _ _ ih =>
    simp only [List.count_append, List.count_cons, List.count_nil]
    by_cases hsame : other = handle
    · simp [hsame, ih]
      omega
    · simp [hsame, ih]
  | @refuse trace _ _ slots other _ _ ih =>
    simp only [List.count_append, List.count_cons, List.count_nil]
    by_cases hsame : other = handle
    · simp [hsame, ih]
      omega
    · simp [hsame, ih]
  | @take trace _ _ slots other i _ _ hfree ih =>
    have hcount := count_update (· = .holds handle) slots i (.holds other)
    simp only [List.count_append, List.count_cons, List.count_nil]
    by_cases hsame : other = handle
    · simp [hsame, hfree] at hcount ⊢
      omega
    · simp [hsame, hfree] at hcount ⊢
      omega
  | @drain trace _ _ slots other i _ hholds ih =>
    have hcount := count_update (· = .holds handle) slots i .drained
    simp only [List.count_append, List.count_cons, List.count_nil]
    by_cases hsame : other = handle
    · simp [hsame, hholds] at hcount ⊢
      omega
    · simp [hsame, hholds] at hcount ⊢
      omega
  | @vacate trace _ _ slots i _ hdrained ih =>
    have hcount := count_update (· = .holds handle) slots i .free
    simp [hdrained] at hcount
    omega

/-- Each slot that is not free was taken, and not vacated since. -/
theorem Reached.occupied (h : Reached may trace taken vacated slots) :
    taken = count (· ≠ .free) slots + vacated := by
  induction h with
  | init => rw [count_init _ (by simp)]
  | pass _ _ ih => exact ih
  | refuse _ _ ih => exact ih
  | @take _ _ _ slots handle i _ _ hfree ih =>
    have hcount := count_update (· ≠ .free) slots i (.holds handle)
    rw [hfree, if_neg (not_not.mpr rfl), if_pos (by simp)] at hcount
    omega
  | @drain _ _ _ slots _ i _ hholds ih =>
    have hcount := count_update (· ≠ .free) slots i .drained
    rw [hholds, if_pos (by simp), if_pos (by simp)] at hcount
    omega
  | @vacate _ _ _ slots i _ hdrained ih =>
    have hcount := count_update (· ≠ .free) slots i .free
    rw [hdrained, if_pos (by simp), if_neg (not_not.mpr rfl)] at hcount
    omega

end Counting

/-! ## What became of a handle -/

section Fate

variable [DecidableEq δ]

/-- What happens until a handle comes the next time. -/
def untilBack (handle : δ) (trace : List (Event δ)) : List (Event δ) :=
  trace.takeWhile (· ≠ .acquired handle)

/-- What became of a handle that came before some events: one slot holds it since, or it was passed
on once, or it was given back once, before it came again if a slot holds it now. -/
inductive Fate (slots : ι → Slot δ) (handle : δ) (after : List (Event δ)) : Prop
  | kept (hslot : ∃! i, slots i = .holds handle) (hback : .acquired handle ∉ after)
      (hpassed : .passed handle ∉ after) (hreleased : .released handle ∉ after)
  | passed (hpassed : (untilBack handle after).count (.passed handle) = 1)
      (hreleased : (untilBack handle after).count (.released handle) = 0)
      (hback : (∃ i, slots i = .holds handle) → .acquired handle ∈ after)
  | released (hpassed : (untilBack handle after).count (.passed handle) = 0)
      (hreleased : (untilBack handle after).count (.released handle) = 1)
      (hback : (∃ i, slots i = .holds handle) → .acquired handle ∈ after)

theorem untilAcquired_map_use (handle : δ) (trace : List (Event δ)) :
    Ownership.untilAcquired handle (trace.map Event.use) = (untilBack handle trace).map Event.use := by
  rw [Ownership.untilAcquired, untilBack, List.takeWhile_map]
  congr 2
  funext event
  cases event <;> simp [Event.use]

theorem count_map_use_release (handle : δ) (trace : List (Event δ)) :
    (trace.map Event.use).count (.release handle) =
      trace.count (.passed handle) + trace.count (.released handle) := by
  induction trace with
  | nil => rfl
  | cons event trace ih =>
    cases event with
    | acquired other => simpa [Event.use, List.count_cons] using ih
    | passed other =>
      simp only [List.map_cons, List.count_cons, Event.use, ih]
      by_cases hsame : other = handle
      · simp [hsame]
        omega
      · simp [hsame]
    | released other =>
      simp only [List.map_cons, List.count_cons, Event.use, ih]
      by_cases hsame : other = handle
      · simp [hsame]
        omega
      · simp [hsame]

/-- **One fate for each handle.** -/
theorem Reached.fate (h : Reached Fresh trace taken vacated slots) {before after : List (Event δ)}
    (htrace : trace = before ++ .acquired handle :: after) : Fate slots handle after := by
  obtain ⟨haccounts, hdistinct⟩ := h.accounts
  have huses : trace.map Event.use =
      before.map Event.use ++ .acquire handle :: after.map Event.use := by
    rw [htrace, List.map_append, List.map_cons]
    rfl
  rcases haccounts.eachReleasedOnce _ _ _ huses with ⟨⟨i, hi⟩, hacquire, hrelease⟩ | ⟨hcount, hback⟩
  · have hnone : (after.map Event.use).count (.release handle) = 0 :=
      List.count_eq_zero_of_not_mem hrelease
    rw [count_map_use_release, Nat.add_eq_zero_iff, List.count_eq_zero, List.count_eq_zero] at hnone
    refine .kept ⟨i, hi, fun j hj => hdistinct j i handle hj hi⟩ ?_ hnone.1 hnone.2
    exact fun hmem => hacquire (mem_map_use_acquire.mpr hmem)
  · rw [untilAcquired_map_use, count_map_use_release] at hcount
    have hback' : (∃ i, slots i = .holds handle) → .acquired handle ∈ after :=
      fun hheld => mem_map_use_acquire.mp (hback hheld)
    rcases Nat.add_eq_one_iff.mp hcount with ⟨hzero, hone⟩ | ⟨hone, hzero⟩
    · exact .released hzero hone hback'
    · exact .passed hone hzero hback'

end Fate

end CS.SlotPool
