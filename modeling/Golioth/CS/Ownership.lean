/-
# Handles that are acquired and released

A system hands out handles and takes them back. A trace of this accounts for the
handles if each is handed out only while nobody holds it, and taken back only from a
holder. In such a trace every handle that was handed out is held still, or has been
taken back exactly once before it was handed out again.
-/
import Mathlib.Data.List.TakeWhile
import Mathlib.Order.BooleanAlgebra.Set

namespace CS

/-- An element of a list with one more element is that one, or one of the others. -/
theorem snoc_eq_append_cons {α : Type*} {xs before after : List α} {x y : α}
    (h : xs ++ [x] = before ++ y :: after) :
    xs = before ∧ x = y ∧ after = [] ∨
      ∃ rest, after = rest ++ [x] ∧ xs = before ++ y :: rest := by
  rcases List.eq_nil_or_concat after with rfl | ⟨rest, last, rfl⟩
  · obtain ⟨hxs, hlast⟩ := List.append_inj' h rfl
    exact .inl ⟨hxs, List.singleton_inj.mp hlast, rfl⟩
  · have hsnoc : xs ++ [x] = (before ++ y :: rest) ++ [last] := by simpa using h
    obtain ⟨hxs, hlast⟩ := List.append_inj' hsnoc rfl
    obtain rfl := List.singleton_inj.mp hlast
    exact .inr ⟨rest, List.concat_eq_append, hxs⟩

namespace Ownership

/-- One use of a handle. -/
inductive Use (δ : Type*)
  | acquire (handle : δ)
  | release (handle : δ)
  deriving DecidableEq

variable {δ : Type*} {uses : List (Use δ)} {held : Set δ} {handle : δ}

/-- The handles held after a trace that accounts for them. -/
inductive Accounts : List (Use δ) → Set δ → Prop
  | nil : Accounts [] ∅
  | acquire {uses : List (Use δ)} {held : Set δ} {handle : δ} : Accounts uses held →
      handle ∉ held → Accounts (uses ++ [.acquire handle]) (insert handle held)
  | release {uses : List (Use δ)} {held : Set δ} {handle : δ} : Accounts uses held →
      handle ∈ held → Accounts (uses ++ [.release handle]) (held \ {handle})

/-- The first handle, acquired while none is held. -/
theorem Accounts.first (h : Accounts uses ∅) (handle : δ) :
    Accounts (uses ++ [.acquire handle]) {handle} := by
  rw [← insert_empty_eq]
  exact h.acquire (Set.notMem_empty handle)

/-- The last handle that is held, released. -/
theorem Accounts.last (h : Accounts uses {handle}) : Accounts (uses ++ [.release handle]) ∅ := by
  rw [← Set.sdiff_self (s := {handle})]
  exact h.release (Set.mem_singleton handle)

variable [DecidableEq δ]

/-- What is done until a handle is acquired the next time. -/
def untilAcquired (handle : δ) (uses : List (Use δ)) : List (Use δ) :=
  uses.takeWhile (· ≠ .acquire handle)

theorem untilAcquired_of_notMem (h : .acquire handle ∉ uses) : untilAcquired handle uses = uses := by
  refine List.takeWhile_eq_self_iff.mpr fun use hmem => decide_eq_true ?_
  rintro rfl
  exact h hmem

theorem untilAcquired_snoc (h : .acquire handle ∉ uses) :
    untilAcquired handle (uses ++ [.acquire handle]) = uses := by
  have huses := List.takeWhile_eq_self_iff.mp (untilAcquired_of_notMem h)
  rw [untilAcquired, List.takeWhile_append_of_pos huses]
  simp

theorem untilAcquired_append_of_mem {more : List (Use δ)} (h : .acquire handle ∈ uses) :
    untilAcquired handle (uses ++ more) = untilAcquired handle uses := by
  rw [untilAcquired, untilAcquired, List.takeWhile_append, if_neg]
  intro hall
  have hself := (List.takeWhile_prefix _).eq_of_length hall
  exact of_decide_eq_true (List.takeWhile_eq_self_iff.mp hself _ h) rfl

/-- Each time a handle was acquired, it is held since; or it was released exactly once,
before it was acquired again if it is held now. -/
def EachReleasedOnce (uses : List (Use δ)) (held : Set δ) : Prop :=
  ∀ before handle after, uses = before ++ .acquire handle :: after →
    handle ∈ held ∧ .acquire handle ∉ after ∧ .release handle ∉ after ∨
      (untilAcquired handle after).count (.release handle) = 1 ∧
        (handle ∈ held → .acquire handle ∈ after)

/-- **Handles that are accounted for are released exactly once.** -/
theorem Accounts.eachReleasedOnce (h : Accounts uses held) : EachReleasedOnce uses held := by
  induction h with
  | nil =>
    intro before handle after huses
    simp at huses
  | @acquire uses held new h hfree ih =>
    intro before handle after huses
    rcases snoc_eq_append_cons huses with ⟨-, hnew, rfl⟩ | ⟨rest, rfl, hbefore⟩
    · obtain rfl := Use.acquire.inj hnew
      exact .inl ⟨Set.mem_insert _ _, by simp, by simp⟩
    · rcases ih before handle rest hbefore with ⟨hmem, hacquire, hrelease⟩ | ⟨hcount, hagain⟩
      · have hother : handle ≠ new := fun heq => hfree (heq ▸ hmem)
        refine .inl ⟨Set.mem_insert_of_mem _ hmem, ?_, by simpa using hrelease⟩
        simpa [hother] using hacquire
      · by_cases hacquire : .acquire handle ∈ rest
        · refine .inr ⟨?_, fun _ => List.mem_append_left _ hacquire⟩
          rw [untilAcquired_append_of_mem hacquire, hcount]
        · rw [untilAcquired_of_notMem hacquire] at hcount
          by_cases hsame : handle = new
          · -- it was released before it is acquired again
            subst hsame
            refine .inr ⟨?_, fun _ => List.mem_append_right _ (List.mem_singleton_self _)⟩
            rw [untilAcquired_snoc hacquire, hcount]
          · have hacquire' : .acquire handle ∉ rest ++ [.acquire new] := by
              simpa [hsame] using hacquire
            refine .inr ⟨?_, fun hmem => ?_⟩
            · rw [untilAcquired_of_notMem hacquire', List.count_append, hcount]
              simp
            · exact absurd (hagain ((Set.mem_insert_iff.mp hmem).resolve_left hsame)) hacquire
  | @release uses held old h hheld ih =>
    intro before handle after huses
    obtain ⟨rest, rfl, hbefore⟩ := (snoc_eq_append_cons huses).resolve_left (by simp)
    rcases ih before handle rest hbefore with ⟨hmem, hacquire, hrelease⟩ | ⟨hcount, hagain⟩
    · have hacquire' : .acquire handle ∉ rest ++ [.release old] := by simpa using hacquire
      by_cases hsame : handle = old
      · -- this is the release
        subst hsame
        refine .inr ⟨?_, fun hmem => absurd rfl hmem.2⟩
        rw [untilAcquired_of_notMem hacquire', List.count_append,
          List.count_eq_zero_of_not_mem hrelease]
        simp
      · refine .inl ⟨⟨hmem, hsame⟩, hacquire', ?_⟩
        simpa [hsame] using hrelease
    · by_cases hacquire : .acquire handle ∈ rest
      · refine .inr ⟨?_, fun _ => List.mem_append_left _ hacquire⟩
        rw [untilAcquired_append_of_mem hacquire, hcount]
      · -- the handle is not held, so that it is not the one released
        have hgone : handle ∉ held := fun hmem => hacquire (hagain hmem)
        have hother : old ≠ handle := fun heq => hgone (heq ▸ hheld)
        have hacquire' : .acquire handle ∉ rest ++ [.release old] := by simpa using hacquire
        refine .inr ⟨?_, fun hmem => absurd hmem.1 hgone⟩
        rw [untilAcquired_of_notMem hacquire] at hcount
        rw [untilAcquired_of_notMem hacquire', List.count_append, hcount]
        simp [hother]

end Ownership

end CS
