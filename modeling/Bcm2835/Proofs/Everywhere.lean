import Mathlib.Data.List.Basic

/-! Lists judged place by place: each element by the ones before and behind it. Where more elements
further away cannot spoil a place, lists can be judged part by part. -/

namespace Bcm2835

variable {α β : Type} {good : List α → α → List α → Prop} {A B : List α}

/-- Each element is in its place, between those before and those behind it. -/
def Everywhere (good : List α → α → List α → Prop) (A : List α) : Prop :=
  ∀ P a Q, A = P ++ a :: Q → good P a Q

/-- More elements on either side do not spoil a place. -/
def Lasting (good : List α → α → List α → Prop) : Prop :=
  ∀ X P a Q Y, good P a Q → good (X ++ P) a (Q ++ Y)

theorem everywhere_nil : Everywhere good [] := fun _ _ _ h => by simp at h

theorem everywhere_append :
    Everywhere good (A ++ B) ↔
      Everywhere (fun P a Q => good P a (Q ++ B)) A ∧ Everywhere (fun P => good (A ++ P)) B := by
  constructor
  · intro h
    exact ⟨fun P a Q hA => h P a (Q ++ B) (by simp [hA]),
      fun P a Q hB => h (A ++ P) a Q (by simp [hB])⟩
  · rintro ⟨hA, hB⟩ P a Q h
    rcases List.append_eq_append_iff.1 h with ⟨P', rfl, hP⟩ | ⟨_ | ⟨c, Q'⟩, rfl, hQ⟩
    · exact hB P' a Q hP
    · simpa using hB [] a Q hQ.symm
    · obtain ⟨rfl, rfl⟩ := List.cons.inj hQ
      exact hA P a Q' rfl

theorem everywhere_cons {a : α} :
    Everywhere good (a :: A) ↔ good [] a A ∧ Everywhere (fun P => good (a :: P)) A := by
  constructor
  · exact fun h => ⟨h [] a A rfl, fun P b Q hA => h (a :: P) b Q (congrArg _ hA)⟩
  · rintro ⟨ha, hA⟩ (_ | ⟨c, P⟩) b Q h
    · obtain ⟨rfl, rfl⟩ := List.cons.inj h
      exact ha
    · obtain ⟨rfl, rfl⟩ := List.cons.inj h
      exact hA P b Q rfl

theorem Everywhere.of_forall_mem (h : ∀ a ∈ A, ∀ P Q, good P a Q) : Everywhere good A :=
  fun P a Q hA => h a (by simp [hA]) P Q

theorem Everywhere.append (hgood : Lasting good) (hA : Everywhere good A) (hB : Everywhere good B) :
    Everywhere good (A ++ B) := by
  refine everywhere_append.2 ⟨fun P a Q h => ?_, fun P a Q h => ?_⟩
  · exact hgood [] P a Q B (hA P a Q h)
  · simpa using hgood A P a Q [] (hB P a Q h)

theorem Everywhere.flatMap (hgood : Lasting good) {bs : List β} {f : β → List α}
    (h : ∀ b, Everywhere good (f b)) : Everywhere good (bs.flatMap f) := by
  induction bs with
  | nil => exact everywhere_nil
  | cons b bs ih => exact (h b).append hgood ih

end Bcm2835
