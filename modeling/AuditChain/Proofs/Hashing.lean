import Mathlib.Data.List.Basic
import AuditChain.Bytes.Lemmas
import AuditChain.Block
/-!
# What a hash determines

Nothing is assumed of the hash function. Where two hashes are equal, the hashed strings are equal or
they are a collision, and the theorems that need this say so.
-/

namespace AuditChain

/-- Two different strings of the list have one hash. -/
def Collision (hashed : List Bytes) : Prop :=
  ∃ x ∈ hashed, ∃ y ∈ hashed, x ≠ y ∧ hash256 x = hash256 y

theorem eq_of_hash256_eq {hashed : List Bytes} (hn : ¬ Collision hashed) {x y : Bytes} (hx : x ∈ hashed)
    (hy : y ∈ hashed) (h : hash256 x = hash256 y) : x = y := by
  by_contra hne
  exact hn ⟨x, hx, y, hy, hne, h⟩

theorem Collision.mono {hashed more : List Bytes} (h : Collision hashed) (hs : hashed ⊆ more) : Collision more := by
  obtain ⟨x, hx, y, hy, hne, he⟩ := h
  exact ⟨x, hs hx, y, hs hy, hne, he⟩

theorem eq_of_map_eq {α β : Type} {f : α → β} {xs ys : List α} (hf : ∀ x ∈ xs, ∀ y ∈ ys, f x = f y → x = y)
    (h : xs.map f = ys.map f) : xs = ys := by
  induction xs generalizing ys with
  | nil => simpa using h.symm
  | cons x xs ih =>
    cases ys with
    | nil => simp at h
    | cons y ys =>
      rw [List.map_cons, List.map_cons, List.cons.injEq] at h
      have hhead := hf x (by simp) y (by simp) h.1
      have htail := ih (fun a ha b hb => hf a (by simp [ha]) b (by simp [hb])) h.2
      rw [hhead, htail]

/-- Hashed strings are determined by their hashes. -/
theorem eq_of_map_hash256_eq {hashed xs ys : List Bytes} (hn : ¬ Collision hashed) (hx : xs ⊆ hashed) (hy : ys ⊆ hashed)
    (h : xs.map hash256 = ys.map hash256) : xs = ys :=
  eq_of_map_eq (fun _ ha _ hb => eq_of_hash256_eq hn (hx ha) (hy hb)) h

end AuditChain
