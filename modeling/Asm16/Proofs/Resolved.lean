import Asm16.Proofs.TokenMaps

/-!
# Resolution keeps the form of a line

`Line.resolve` gives the label uses of a line their addresses, in its tokens and in the copies its
operands hold. This is a map of tokens that keeps the form of the line (`Token.keepsPlace_resolve`).

`measure_resolve` is the sum of it : a resolved line has the size it had before, and the resolved
instruction.
-/

namespace Asm16

variable (find : Bytes → Option Int)

/-! ## Tokens -/

namespace Token

@[simp] theorem resolve_kind (t : Token) : (t.resolve find).kind = t.kind := by
  unfold resolve
  split <;> rfl

@[simp] theorem resolve_text (t : Token) : (t.resolve find).text = t.text := by
  unfold resolve
  split <;> rfl

@[simp] theorem resolve_contents (t : Token) : (t.resolve find).contents = t.contents := by
  unfold resolve
  split <;> rfl

@[simp] theorem resolve_start (t : Token) : (t.resolve find).start = t.start := by
  unfold resolve
  split <;> rfl

/-- Only label uses change. -/
theorem resolve_of_ne {t : Token} (h : t.kind ≠ .labelUse) : t.resolve find = t := by
  unfold resolve
  rw [if_neg h]

theorem keepsPlace_resolve : KeepsPlace (Token.resolve find) where
  kind_eq := resolve_kind find
  text_eq := resolve_text find
  start_eq := resolve_start find
  contents_eq := resolve_contents find
  value_eq t h := by rw [resolve_of_ne find (by simp [h])]
  implied_eq _ _ hk := resolve_of_ne find hk

end Token

/-! ## Instructions and lines -/

theorem Instruction.mapTokens_resolve :
    Instruction.mapTokens (Token.resolve find) = Instruction.resolve find := by
  funext c
  cases c <;> rfl

namespace Line

@[simp] theorem resolve_offset (l : Line) : (l.resolve find).offset = l.offset := rfl

@[simp] theorem resolve_size (l : Line) : (l.resolve find).size = l.size := rfl

@[simp] theorem resolve_tokens (l : Line) :
    (l.resolve find).tokens = l.tokens.map (Token.resolve find) := rfl

@[simp] theorem resolve_stop (l : Line) : (l.resolve find).stop = l.stop := by
  simp only [stop, resolve_offset, resolve_size]

/-- A resolved line has the size of the line, and its instruction resolved. -/
theorem measure_resolve (l : Line) (offset : Int) : (l.resolve find).measure offset =
    (l.measure offset).map fun r => (r.1, r.2.map (Instruction.resolve find)) := by
  rw [← Instruction.mapTokens_resolve]
  exact measure_map (Token.keepsPlace_resolve find) (resolve_tokens find l) rfl rfl offset

end Line

end Asm16
