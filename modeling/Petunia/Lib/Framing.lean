import Mathlib.Data.List.Basic

set_option autoImplicit false

/-!
# Prefix codes and length-prefixed frames

Words sent one after another over a stream can be told apart again if no word is empty and none
begins another. A frame whose header has a fixed length and fixes the length of the rest is such a
word.

* `IsPrefixCode`, **`IsPrefixCode.cut`**: what follows some decoded words in a stream of words is
  again a stream of words;
* `IsPrefixCode.of_header`: length-prefixed frames are a prefix code;
* `IsPrefixCode.header`: the header is in the stream as soon as that many elements are.
-/

namespace Framing

variable {α β : Type*}

/-- No word is empty, and none begins another. -/
structure IsPrefixCode (enc : α → List β) : Prop where
  ne_nil : ∀ a, enc a ≠ []
  eq_of_prefix : ∀ a b, enc a <+: enc b → a = b

namespace IsPrefixCode

variable {enc : α → List β}

/-- Of two words that begin the same stream neither is longer. -/
theorem eq_of_append (h : IsPrefixCode enc) {a b : α} {r s : List β}
    (e : enc a ++ r = enc b ++ s) : a = b := by
  rcases List.append_eq_append_iff.mp e with ⟨t, ht, -⟩ | ⟨t, ht, -⟩
  · exact h.eq_of_prefix a b ⟨t, ht.symm⟩
  · exact (h.eq_of_prefix b a ⟨t, ht.symm⟩).symm

/-- **A stream of words is cut behind the words decoded so far.** -/
theorem cut (h : IsPrefixCode enc) {as bs : List α} {r : List β}
    (e : as.flatMap enc ++ r = bs.flatMap enc) :
    ∃ cs, bs = as ++ cs ∧ r = cs.flatMap enc := by
  induction as generalizing bs with
  | nil => exact ⟨bs, rfl, e⟩
  | cons a as ih =>
    rw [List.flatMap_cons, List.append_assoc] at e
    cases bs with
    | nil =>
      -- a word is left on one side and nothing on the other
      exact absurd (List.append_eq_nil_iff.mp e).1 (h.ne_nil a)
    | cons b bs =>
      rw [List.flatMap_cons] at e
      obtain rfl := h.eq_of_append e
      obtain ⟨cs, rfl, hr⟩ := ih (List.append_cancel_left e)
      exact ⟨cs, rfl, hr⟩

/-- **Length-prefixed frames are a prefix code**: a header of fixed length that determines the
length of the body. -/
theorem of_header {hdr body : α → List β} {n : ℕ} (hn : 0 < n) (hlen : ∀ a, (hdr a).length = n)
    (hbody : ∀ a b, hdr a = hdr b → (body a).length = (body b).length)
    (hinj : ∀ a b, hdr a = hdr b → body a = body b → a = b) :
    IsPrefixCode fun a => hdr a ++ body a where
  ne_nil a h := by
    have h0 := congrArg List.length (List.append_eq_nil_iff.mp h).1
    rw [hlen a] at h0
    exact absurd h0 (Nat.ne_of_gt hn)
  eq_of_prefix a b := fun ⟨t, ht⟩ => by
    rw [List.append_assoc] at ht
    obtain ⟨hh, ht⟩ := List.append_inj ht ((hlen a).trans (hlen b).symm)
    rw [← List.append_nil (body b)] at ht
    exact hinj a b hh (List.append_inj ht (hbody a b hh)).1

/-- **The header of the next frame** is in the stream as soon as that many elements are. -/
theorem header {hdr body : α → List β} {n : ℕ} (hn : 0 < n) (hlen : ∀ a, (hdr a).length = n)
    {buf r : List β} {as : List α} (hbuf : buf.length = n)
    (e : buf ++ r = as.flatMap fun a => hdr a ++ body a) :
    ∃ a cs, as = a :: cs ∧ buf = hdr a ∧ r = body a ++ cs.flatMap fun a => hdr a ++ body a := by
  cases as with
  | nil =>
    rw [List.eq_nil_of_length_eq_zero (congrArg List.length (List.append_eq_nil_iff.mp e).1)] at hbuf
    exact absurd hbuf (Nat.ne_of_lt hn)
  | cons a as =>
    rw [List.flatMap_cons, List.append_assoc] at e
    obtain ⟨hh, hr⟩ := List.append_inj e (hbuf.trans (hlen a).symm)
    exact ⟨a, as, rfl, hh, hr⟩

end IsPrefixCode

end Framing
