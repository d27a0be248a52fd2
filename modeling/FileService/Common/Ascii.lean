import FileService.Common.Crypto
import FileService.Common.Text

/-!
# ASCII texts

A text of ASCII characters has one octet for each of them.
-/
namespace FileService.Common.Ascii
open FileService.Common.Crypto (octets)
open FileService.Common.Text (byteSize)

def IsAscii (cs : List Char) : Prop := ∀ c ∈ cs, c.toNat < 128

def octetOf (c : Char) : UInt8 := UInt8.ofNat c.toNat

variable {cs : List Char}

theorem octets_append (a b : String) : octets (a ++ b) = octets a ++ octets b := by
  simp [octets]

theorem octets_ofList (h : IsAscii cs) : octets (String.ofList cs) = cs.map octetOf := by
  have hencode : cs.flatMap String.utf8EncodeChar = cs.map octetOf := by
    induction cs with
    | nil => rfl
    | cons c cs ih =>
      have hc : c.val.toNat ≤ 127 := Nat.le_of_lt_succ (h c List.mem_cons_self)
      have hone : String.utf8EncodeChar c = [octetOf c] := if_pos hc
      rw [List.flatMap_cons, hone, ih fun d hd => h d (List.mem_cons_of_mem _ hd)]
      rfl
  simp [octets, List.utf8Encode, hencode]

theorem byteSize_ofList (h : IsAscii cs) : byteSize (String.ofList cs) = cs.length := by
  have hsize : byteSize (String.ofList cs) = (octets (String.ofList cs)).length := by
    rw [byteSize, ← String.size_toByteArray]
    rfl
  rw [hsize, octets_ofList h, List.length_map]

theorem isAscii_of_digits (h : ∀ c ∈ cs, c.isDigit = true) : IsAscii cs := by
  intro c hc
  obtain ⟨-, hhigh⟩ := Char.isDigit_iff_toNat.mp (h c hc)
  exact hhigh.trans_lt (by decide)

end FileService.Common.Ascii
