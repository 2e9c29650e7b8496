import Phrasebook.Key
import Phrasebook.Proofs.Letters
import Phrasebook.Proofs.Table
import Phrasebook.Text.Quoted

/-!
What the keys of the built-in generator look like, whatever the text, the file and the component.
They have no underscore, so a number that is put after a key to make it free cannot turn it into the
key of another text.
-/
namespace Phrasebook

namespace Text

/-! ### Texts that are quoted as they are -/

theorem escapeChar_of_plain {c : Char} (hlow : 0x20 ≤ c.toNat) (hquote : c.toNat ≠ 0x22)
    (hslash : c.toNat ≠ 0x5c) : escapeChar c = [c] := by
  unfold escapeChar
  split
  case _ h => exact absurd h hquote
  case _ h => exact absurd h hslash
  any_goals omega
  exact if_neg (Nat.not_lt.mpr hlow)

end Text

/-! ### Namespaces -/

/-- Whichever name a namespace is made from, it is in lower camel case and not empty. -/
theorem keyNamespace_camel (request : KeyRequest) :
    keyNamespace request ≠ "" ∧
      Text.lowerCamel (keyNamespace request) = keyNamespace request := by
  simp only [keyNamespace]
  split
  · rename_i hcomponent
    refine ⟨by simpa using hcomponent, ?_⟩
    cases hhint : request.hint with
    | none => simp [hhint] at hcomponent
    | some hint => exact Text.lowerCamel_lowerCamel hint
  · split
    · rename_i hfile
      exact ⟨by simpa using hfile, Text.lowerCamel_lowerCamel _⟩
    · decide

/-! ### Digests -/

namespace Digest.Blake3

/-- A digit in lower case. -/
def isHexDigit (c : Char) : Bool := c.isDigit || ('a' ≤ c && c ≤ 'f')

theorem isHexDigit_hexDigit (n : Nat) : isHexDigit (hexDigit n) = true := by
  have hdigits : ∀ r < 16, isHexDigit (Nat.digitChar r) = true := by decide
  exact hdigits (n % 16) (Nat.mod_lt n (by decide))

theorem isAlphanum_of_isHexDigit {c : Char} (h : isHexDigit c = true) : c.isAlphanum = true := by
  simp only [isHexDigit, Bool.or_eq_true, Bool.and_eq_true, decide_eq_true_eq] at h
  rw [Text.isAlphanum_iff]
  rcases h with hdigit | ⟨ha, hf⟩
  · have hrange := Text.isDigit_iff.mp hdigit
    omega
  · have hlow : 0x61 ≤ c.toNat := ha
    have hhigh : c.toNat ≤ 0x66 := hf
    omega

theorem length_wordHex (w : UInt32) : (wordHex w).length = 8 := rfl

theorem all_isHexDigit_wordHex (w : UInt32) : (wordHex w).all isHexDigit = true := by
  simp [wordHex, isHexDigit_hexDigit]

theorem all_isHexDigit_hex (text : String) : (hex text).all isHexDigit = true := by
  simp only [hex, List.all_flatMap, all_isHexDigit_wordHex, List.all_eq_true, implies_true]

theorem isHexDigit_of_mem_take {text : String} {count : Nat} {c : Char}
    (h : c ∈ (hex text).take count) : isHexDigit c = true :=
  List.all_eq_true.mp (all_isHexDigit_hex text) c (List.mem_of_mem_take h)

theorem length_hex (text : String) : (hex text).length = 64 := by
  simp [hex, List.length_flatMap, length_wordHex]

end Digest.Blake3

/-! ### Keys -/

/-- What a key may consist of. -/
def isKeyChar (c : Char) : Bool := c.isAlphanum || c == '.'

theorem all_isKeyChar_hashKey (request : KeyRequest) :
    (hashKey request).toList.all isKeyChar = true := by
  obtain ⟨hplain, -⟩ := (Text.lowerCamel_eq_self_iff _).mp (keyNamespace_camel request).2
  have hnamespace : (keyNamespace request).toList.all isKeyChar = true := by
    rw [List.all_eq_true] at hplain ⊢
    intro c hc
    simp [isKeyChar, hplain c hc]
  have hdigits : ((Digest.Blake3.hex request.text).take 8).all isKeyChar = true := by
    rw [List.all_eq_true]
    intro c hc
    have hhex := Digest.Blake3.isHexDigit_of_mem_take hc
    simp [isKeyChar, Digest.Blake3.isAlphanum_of_isHexDigit hhex]
  have hdot : isKeyChar '.' = true := by decide
  simp only [hashKey, String.toList_append, String.toList_ofList, List.all_append, hnamespace,
    hdigits, Bool.and_true, Bool.true_and]
  simp [hdot]

theorem underscore_not_mem_hashKey (request : KeyRequest) : '_' ∉ (hashKey request).toList := by
  intro h
  have := List.all_eq_true.mp (all_isKeyChar_hashKey request) '_' h
  revert this
  decide

theorem escapeChar_of_isKeyChar {c : Char} (h : isKeyChar c = true) : Text.escapeChar c = [c] := by
  simp only [isKeyChar, Bool.or_eq_true, beq_iff_eq] at h
  rcases h with h | rfl
  · have hrange := Text.isAlphanum_iff.mp h
    exact Text.escapeChar_of_plain (by omega) (by omega) (by omega)
  · decide

theorem quote_hashKey (request : KeyRequest) :
    Text.quote (hashKey request) = "\x22" ++ hashKey request ++ "\x22" := by
  have hplain : (hashKey request).toList.flatMap Text.escapeChar = (hashKey request).toList := by
    calc (hashKey request).toList.flatMap Text.escapeChar
        = (hashKey request).toList.flatMap ([·]) := by
          refine List.flatMap_congr fun c hc => escapeChar_of_isKeyChar ?_
          exact List.all_eq_true.mp (all_isKeyChar_hashKey request) c hc
      _ = (hashKey request).toList := List.flatMap_singleton' _
  refine String.toList_injective ?_
  simp [Text.quote, hplain]

/-- Whatever is asked for, a key is the namespace of the request, a name in lower camel case, a dot
and the first eight digits of the digest of the text, hexadecimal in lower case. It has no
underscore, it is not what any such key becomes when a number makes it free, and it is quoted as it
is. -/
theorem hashKey_shape (request : KeyRequest) :
    let ns := keyNamespace request
    let digits := (Digest.Blake3.hex request.text).take 8
    (hashKey request = ns ++ "." ++ String.ofList digits ∧
      digits.length = 8 ∧ digits.all Digest.Blake3.isHexDigit = true ∧
      ns ≠ "" ∧ ns.toList.all Char.isAlphanum = true ∧ Text.isComponentName ns = false ∧
      Text.lowerCamel ns = ns) ∧
    '_' ∉ (hashKey request).toList ∧
    (∀ (other : KeyRequest) (t : Table), hashKey request ≠ t.freeKey (hashKey other)) ∧
    Text.quote (hashKey request) = "\x22" ++ hashKey request ++ "\x22" := by
  intro ns digits
  refine ⟨?_, underscore_not_mem_hashKey request, ?_, quote_hashKey request⟩
  · obtain ⟨hne, hself⟩ := keyNamespace_camel request
    obtain ⟨hall, hstart⟩ := (Text.lowerCamel_eq_self_iff _).mp hself
    refine ⟨rfl, ?_, ?_, hne, hall, hstart, hself⟩
    · simp [digits, Digest.Blake3.length_hex]
    · rw [List.all_eq_true]
      exact fun c hc => Digest.Blake3.isHexDigit_of_mem_take hc
  · intro other t heq
    obtain ⟨n, -, hfree, -⟩ := t.freeKey_least (hashKey other)
    refine underscore_not_mem_hashKey request ?_
    rw [heq, hfree]
    simp

/-- A component or directory without ASCII letters gives no namespace, and a file named `index`
gives way to its directory. -/
example :
    keyNamespace ⟨"保存", ⟨"src/页面/index.tsx", .component⟩, some "--"⟩ = "common" ∧
      keyNamespace ⟨"保存", ⟨"src/Order-list/index.tsx", .component⟩, none⟩ = "orderList" ∧
      keyNamespace ⟨"保存", ⟨"src/menu.data.ts", .component⟩, none⟩ = "menu" := by
  decide +kernel

end Phrasebook
