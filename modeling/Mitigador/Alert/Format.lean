import Mathlib.Data.UInt
import Mitigador.Lib.Escape

/-! The escaping of dynamic texts for MarkdownV2 (internal/alert/telegram/format.go). A text is the
list of its bytes; those of a rune beyond ASCII are neither special nor punctuation. -/

namespace Mitigador.Alert.Telegram

open Lib

def ascii (text : String) : List UInt8 := text.toList.map fun c => UInt8.ofNat c.toNat

def backslash : UInt8 := 0x5c

def special : List UInt8 := ascii "_*[]()~`>#+-=|\x7b\x7d.!"

/-- `mdv2Escape`: one `strings.ReplaceAll` after another. -/
def mdv2Escape (s : List UInt8) : List UInt8 :=
  special.foldl (fun s c => replaceAll s c [backslash, c]) s

def IsPunct (x : UInt8) : Prop :=
  0x21 ≤ x ∧ x ≤ 0x2f ∨ 0x3a ≤ x ∧ x ≤ 0x40 ∨ 0x5b ≤ x ∧ x ≤ 0x60 ∨ 0x7b ≤ x ∧ x ≤ 0x7e

instance : DecidablePred IsPunct := fun _ => inferInstanceAs (Decidable (_ ∨ _))

/-- What MarkdownV2 reads outside code spans. -/
def decode (t : List UInt8) : List UInt8 := unescape backslash IsPunct t

theorem special_isPunct : ∀ c ∈ special, IsPunct c := by decide +kernel

theorem backslash_not_special : backslash ∉ special := by decide +kernel

theorem mdv2Escape_eq (s : List UInt8) : mdv2Escape s = escape backslash special s :=
  foldl_replaceAll backslash (by decide +kernel) backslash_not_special s

/-- An escaped text reads as it was and has every special character escaped exactly where no
backslash of it stands before punctuation. -/
theorem decode_mdv2Escape_iff (s : List UInt8) :
    decode (mdv2Escape s) = s ∧ Guarded backslash special (mdv2Escape s) ↔
      Plain backslash IsPunct s := by
  rw [mdv2Escape_eq]
  exact unescape_escape_iff special_isPunct backslash_not_special (by decide) s

/-- Two backslashes read as one, and a dot after a backslash is free. -/
theorem backslash_cancels :
    decode (mdv2Escape (ascii "a\\\\b")) = ascii "a\\b" ∧
      mdv2Escape (ascii "a\\.b") = ascii "a\\\\" ++ ascii ".b" ∧
      ¬ Guarded backslash special (mdv2Escape (ascii "a\\.b")) := by
  refine ⟨by decide +kernel, by decide +kernel, fun guarded => ?_⟩
  have odd := guarded (ascii "a\\\\") 0x2e (ascii "b") (by decide +kernel) (by decide +kernel)
  exact absurd odd (by decide +kernel)

end Mitigador.Alert.Telegram
