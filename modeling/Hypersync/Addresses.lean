import Hypersync.Blacklist
import Hypersync.Lib.Text
import Mathlib.Data.List.TakeWhile

/-!
# Addresses as they are printed

`Ipv4Addr::to_string` writes four decimal octets between dots.  An address has one
such spelling, and every reader of address texts gets the address back from it: the
address parser, the blacklist, and the sets of strings that hold spellings.
-/

namespace Hypersync

/-! ## 1. Printing -/

namespace Ipv4Addr

/-- The texts of the four octets. -/
def parts (ip : Ipv4Addr) : List (List Char) :=
  [Nat.toDigits 10 ip.1.toNat, Nat.toDigits 10 ip.2.1.toNat, Nat.toDigits 10 ip.2.2.1.toNat,
    Nat.toDigits 10 ip.2.2.2.toNat]

def toString (ip : Ipv4Addr) : String := String.ofList (['.'].intercalate ip.parts)

example : toString (192, 0, 2, 7) = "192.0.2.7" := by decide

theorem exists_octet {ip : Ipv4Addr} {p : List Char} (h : p ∈ ip.parts) :
    ∃ octet : UInt8, p = Nat.toDigits 10 octet.toNat := by
  rcases (by simpa [parts] using h : _ ∨ _ ∨ _ ∨ _) with h | h | h | h <;> exact ⟨_, h⟩

theorem dot_not_mem_parts (ip : Ipv4Addr) : ∀ p ∈ ip.parts, '.' ∉ p := by
  intro p hp hdot
  obtain ⟨octet, rfl⟩ := exists_octet hp
  exact absurd (Text.isDigit_toDigits hdot) (by decide)

theorem splitOn_toString (ip : Ipv4Addr) : ip.toString.toList.splitOn '.' = ip.parts := by
  rw [toString, String.toList_ofList]
  exact List.splitOn_intercalate '.' ip.dot_not_mem_parts (List.cons_ne_nil _ _)

/-- A printed address has digits and dots only. -/
theorem mem_toString {ip : Ipv4Addr} {c : Char} (h : c ∈ ip.toString.toList) : c.isDigit ∨ c = '.' := by
  rw [toString, String.toList_ofList, parts] at h
  have hor : c = '.' ∨ ∃ p ∈ ip.parts, c ∈ p := by
    simp only [List.intercalate, List.intersperse, List.flatten_cons, List.flatten_nil, List.append_nil,
      List.mem_append, List.mem_singleton] at h
    simp only [parts, List.mem_cons, List.not_mem_nil, or_false, exists_eq_or_imp, exists_eq_left]
    tauto
  rcases hor with rfl | ⟨p, hp, hc⟩
  · exact Or.inr rfl
  · obtain ⟨octet, rfl⟩ := exists_octet hp
    exact Or.inl (Text.isDigit_toDigits hc)

end Ipv4Addr

/-! ## 2. Reading back -/

theorem decimal_eq (cs : List Char) : decimal cs = Nat.ofDigitChars 10 cs 0 := Nat.ofDigitChars_eq_foldl.symm

theorem decimal_toDigits (n : Nat) : decimal (Nat.toDigits 10 n) = n := by
  rw [decimal_eq, Nat.ofDigitChars_ten_toDigits]

theorem length_octet_le (octet : UInt8) : (Nat.toDigits 10 octet.toNat).length ≤ 3 := by
  have hlt := octet.toNat_lt
  exact (Nat.length_toDigits_le_iff (by decide) (by decide)).mpr (by omega)

theorem parseOctet_toDigits (octet : UInt8) : parseOctet (Nat.toDigits 10 octet.toNat) = some octet := by
  have hlt := octet.toNat_lt
  have hdigits : (Nat.toDigits 10 octet.toNat).all Char.isDigit = true :=
    List.all_eq_true.mpr fun c hc => Text.isDigit_toDigits hc
  have hle : decimal (Nat.toDigits 10 octet.toNat) ≤ 255 := by
    rw [decimal_toDigits]
    omega
  rw [parseOctet, if_pos ⟨Nat.toDigits_ne_nil, length_octet_le octet, hdigits, Text.plain_toDigits _, hle⟩,
    decimal_toDigits, UInt8.ofNat_toNat]

theorem parseIpv4_toString (ip : Ipv4Addr) : parseIpv4 ip.toString.toList = some ip := by
  rw [parseIpv4, Ipv4Addr.splitOn_toString, Ipv4Addr.parts]
  simp only [parseOctet_toDigits]

theorem toDigits_of_parseOctet {cs : List Char} {octet : UInt8} (h : parseOctet cs = some octet) :
    Nat.toDigits 10 octet.toNat = cs := by
  unfold parseOctet at h
  split at h
  · next hcs =>
    obtain ⟨hne, -, hdigits, hplain, hle⟩ := hcs
    cases h
    have hnat : (UInt8.ofNat (decimal cs)).toNat = decimal cs := by
      rw [UInt8.toNat_ofNat', Nat.mod_eq_of_lt (by omega)]
    rw [hnat, decimal_eq, Text.toDigits_ofDigitChars (List.all_eq_true.mp hdigits) hne hplain]
  · cases h

/-- The parser takes nothing but printed addresses. -/
theorem toString_of_parseIpv4 {cs : List Char} {ip : Ipv4Addr} (h : parseIpv4 cs = some ip) :
    ip.toString.toList = cs := by
  unfold parseIpv4 at h
  split at h
  · next a b c d hparts =>
    split at h
    · next ha hb hc hd =>
      cases h
      have hback : ['.'].intercalate (cs.splitOn '.') = cs := List.intercalate_splitOn '.'
      rw [Ipv4Addr.toString, String.toList_ofList, ← hback, hparts]
      simp only [Ipv4Addr.parts, toDigits_of_parseOctet ha, toDigits_of_parseOctet hb, toDigits_of_parseOctet hc,
        toDigits_of_parseOctet hd]
    · cases h
  · cases h

/-- One spelling per address. -/
theorem Ipv4Addr.toString_injective : Function.Injective Ipv4Addr.toString := by
  intro ip ip' h
  have hparse := parseIpv4_toString ip
  rw [h, parseIpv4_toString] at hparse
  exact (Option.some.inj hparse).symm

theorem hostOf_toString (ip : Ipv4Addr) : hostOf ip.toString = ip.toString.toList := by
  have hcolon : ip.toString.toList.reverse.dropWhile (· ≠ ':') = [] := by
    refine List.dropWhile_eq_nil_iff.mpr fun c hc => decide_eq_true ?_
    rintro rfl
    rcases Ipv4Addr.mem_toString (List.mem_reverse.mp hc) with h | h
    · exact absurd h (by decide)
    · exact absurd h (by decide)
  unfold hostOf
  simp only [hcolon]

namespace Blacklist

/-- `filtered` -/
def filtered (b : Blacklist) (addrs : List String) : List String :=
  if b.ips.length ≠ 0 then addrs.filter fun a => !b.contains a else addrs

theorem contains_toString (b : Blacklist) (ip : Ipv4Addr) : b.contains ip.toString = decide (ip ∈ b.ips) := by
  rw [contains, hostOf_toString, parseIpv4_toString]
  split
  · next hlen => simp [List.eq_nil_of_length_eq_zero hlen]
  · rfl

theorem mem_filtered {b : Blacklist} {addrs : List String} {a : String} :
    a ∈ b.filtered addrs ↔ a ∈ addrs ∧ b.contains a = false := by
  unfold filtered
  split
  · simp
  · next hlen =>
    have hnone : b.contains a = false := by
      rw [contains, if_pos (not_not.mp hlen)]
    simp [hnone]

end Blacklist

end Hypersync
