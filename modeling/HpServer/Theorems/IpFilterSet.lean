import Mathlib.Data.List.TakeWhile
import Mathlib.Data.Nat.Bitwise
import Mathlib.Tactic.Linarith
import HpServer.Lemmas.Numerals
import HpServer.Lemmas.TrieSearch

/-!
# The blacklist is an exact set

`Exact filter blocked` says that a filter answers for a set of addresses: the trie has a value for those addresses and
no others, and the bloom filter reports each of them. `addIp` adds one address to the set; the rest is which addresses
`addCidr` hands to it.
-/

namespace HpServer

/-! ## The bloom filter -/

namespace BloomFilter

/-- Setting bits makes the filter no longer. -/
theorem length_foldl_setBit (hashes : List UInt64) (bits : List Bool) :
    (hashes.foldl setBit bits).length = bits.length := by
  induction hashes generalizing bits with
  | nil => rfl
  | cons hash hashes ih => rw [List.foldl_cons, ih, setBit, List.length_set]

/-- The bits after some hashes: those that were set before, and the places of the hashes. -/
theorem getD_foldl_setBit (hashes : List UInt64) {bits : List Bool} (hbits : 0 < bits.length) (j : Nat) :
    (hashes.foldl setBit bits).getD j false = true ↔
      bits.getD j false = true ∨ ∃ hash ∈ hashes, hash.toNat % bits.length = j := by
  induction hashes generalizing bits with
  | nil => simp
  | cons hash hashes ih =>
    have hlen : (setBit bits hash).length = bits.length := List.length_set
    have hlt : hash.toNat % bits.length < bits.length := Nat.mod_lt _ hbits
    have hset : (setBit bits hash).getD j false = true ↔ bits.getD j false = true ∨ hash.toNat % bits.length = j := by
      rw [setBit, List.getD_eq_getElem?_getD, List.getD_eq_getElem?_getD, List.getElem?_set]
      by_cases hj : hash.toNat % bits.length = j
      · simp [hj, hj ▸ hlt]
      · simp [hj]
    rw [List.foldl_cons, ih (hlen ▸ hbits), hlen, hset, or_assoc, List.exists_mem_cons_iff]

/-- `contains` asks for the bits of all hashes. -/
theorem contains_iff {filter : BloomFilter} {data : Bytes} :
    filter.contains data = true ↔ ∀ hash ∈ computeHashes data,
      filter.bits.getD (hash.toNat % filter.bits.length) false = true :=
  List.all_eq_true

/-- `add` makes the filter no longer. -/
theorem length_add (filter : BloomFilter) (data : Bytes) : (filter.add data).bits.length = filter.bits.length :=
  length_foldl_setBit _ _

/-- What was added is contained: all its bits are set. -/
theorem contains_add_self {filter : BloomFilter} (hbits : 0 < filter.bits.length) (data : Bytes) :
    (filter.add data).contains data = true := by
  rw [contains_iff]
  intro hash hhash
  rw [length_add, add, getD_foldl_setBit _ hbits]
  exact Or.inr ⟨hash, hhash, rfl⟩

/-- No bit is ever cleared. -/
theorem contains_add_of_contains {filter : BloomFilter} (hbits : 0 < filter.bits.length) {data : Bytes}
    (h : filter.contains data = true) (data' : Bytes) : (filter.add data').contains data = true := by
  rw [contains_iff] at h ⊢
  intro hash hhash
  rw [length_add, add, getD_foldl_setBit _ hbits]
  exact Or.inl (h hash hhash)

end BloomFilter

/-! ## The filter and its set -/

namespace IpFilter

/-- The filter answers for a set of addresses. -/
structure Exact (filter : IpFilter) (blocked : Set IpAddress) : Prop where
  sized : 0 < filter.bloomFilter.bits.length
  found : ∀ ip, (filter.trie.search ip).isSome = true ↔ ip ∈ blocked
  reported : ∀ ip ∈ blocked, filter.bloomFilter.contains (dataOf ip) = true

/-- A new filter blocks nothing. -/
theorem exact_new {size : Nat} (hsize : 1 ≤ size) : Exact (new size) ∅ where
  sized := by simpa [new, BloomFilter.new] using Nat.lt_of_succ_le hsize
  found ip := by simp [new, BitwiseTrie.search_new]
  reported ip hip := absurd hip (Set.notMem_empty ip)

/-- `add_ip` adds one address. -/
theorem Exact.addIp {filter : IpFilter} {blocked : Set IpAddress} (h : Exact filter blocked) (ip : IpAddress) :
    Exact (filter.addIp ip) (insert ip blocked) where
  sized := by
    rw [IpFilter.addIp, BloomFilter.length_add]
    exact h.sized
  found x := by
    rw [IpFilter.addIp, BitwiseTrie.search_insert, Set.mem_insert_iff, ← h.found x]
    by_cases hx : x = ip <;> simp [hx]
  reported x hx := by
    rcases Set.mem_insert_iff.mp hx with rfl | hx
    · exact BloomFilter.contains_add_self h.sized _
    · exact BloomFilter.contains_add_of_contains h.sized (h.reported x hx) _

/-- So a list of addresses adds its elements. -/
theorem Exact.foldl_addIp {filter : IpFilter} {blocked : Set IpAddress} (h : Exact filter blocked)
    (ips : List IpAddress) :
    Exact (ips.foldl IpFilter.addIp filter) (blocked ∪ {x | x ∈ ips}) := by
  induction ips generalizing filter blocked with
  | nil => simpa using h
  | cons ip ips ih =>
    have hset : insert ip blocked ∪ {x | x ∈ ips} = blocked ∪ {x | x ∈ ip :: ips} := by
      ext x
      simp only [Set.mem_union, Set.mem_insert_iff, Set.mem_ofPred_eq, List.mem_cons]
      tauto
    exact hset ▸ ih (h.addIp ip)

/-- The bloom filter is asked first, and never hides an address. -/
theorem Exact.isBlocked {filter : IpFilter} {blocked : Set IpAddress} (h : Exact filter blocked) (ip : IpAddress) :
    filter.isBlocked ip = true ↔ ip ∈ blocked := by
  rw [IpFilter.isBlocked, Bool.and_eq_true, h.found ip]
  exact ⟨fun hip => hip.2, fun hip => ⟨h.reported ip hip, hip⟩⟩

/-- Whatever the text, `addCidr` adds some addresses and does nothing else. -/
theorem addCidr_eq_foldl {filter filter' : IpFilter} {cidr : Bytes} (h : filter.addCidr cidr = some filter') :
    ∃ ips : List IpAddress, filter' = ips.foldl IpFilter.addIp filter := by
  unfold addCidr at h
  split at h
  · split at h
    · next ip _ => exact ⟨[ip], (Option.some.inj h).symm⟩
    · exact ⟨[], (Option.some.inj h).symm⟩
  · obtain ⟨mask, -, h⟩ := Option.bind_eq_some_iff.mp h
    split at h
    · exact ⟨[], (Option.some.inj h).symm⟩
    · next ip _ =>
      split_ifs at h
      · exact ⟨[], (Option.some.inj h).symm⟩
      · exact ⟨cidrRange ip mask.toNat, (Option.some.inj h).symm⟩
      · exact ⟨[ip], (Option.some.inj h).symm⟩

/-- A file that is read adds some addresses, and nothing but addresses. -/
theorem foldlM_addLine_eq_foldl (lines : List Bytes) {filter filter' : IpFilter}
    (h : lines.foldlM addLine filter = some filter') :
    ∃ ips : List IpAddress, filter' = ips.foldl IpFilter.addIp filter := by
  induction lines generalizing filter with
  | nil => exact ⟨[], (Option.some.inj h).symm⟩
  | cons line lines ih =>
    obtain ⟨next, hnext, h⟩ := Option.bind_eq_some_iff.mp h
    obtain ⟨ips, rfl⟩ := ih h
    rw [addLine] at hnext
    split_ifs at hnext
    · exact ⟨ips, Option.some.inj hnext ▸ rfl⟩
    · obtain ⟨first, rfl⟩ := addCidr_eq_foldl hnext
      exact ⟨first ++ ips, by rw [List.foldl_append]⟩

/-- Loading a file adds some addresses to those that are blocked already. -/
theorem Exact.init {filter filter' : IpFilter} {blocked : Set IpAddress} (h : Exact filter blocked) {file : Option Bytes}
    (hinit : filter.init file = some filter') : ∃ ips : List IpAddress, Exact filter' (blocked ∪ {x | x ∈ ips}) := by
  cases file with
  | none => exact ⟨[], Option.some.inj hinit ▸ h.foldl_addIp []⟩
  | some text =>
    obtain ⟨ips, rfl⟩ := foldlM_addLine_eq_foldl _ hinit
    exact ⟨ips, h.foldl_addIp ips⟩

end IpFilter

/-! ## The addresses of a range -/

/-- The first `mask` bits of two addresses are the same. -/
def SameNetwork (mask : Nat) (x ip : IpAddress) : Prop := ∀ i < mask, x.getMsbD i = ip.getMsbD i

/-- Two addresses with the same first bits are equal when their last bits are cut off. -/
theorem sameNetwork_iff {mask : Nat} (hmask : mask ≤ 32) (x ip : IpAddress) :
    SameNetwork mask x ip ↔ x.toNat / 2 ^ (32 - mask) = ip.toNat / 2 ^ (32 - mask) := by
  have hbit : ∀ (y : IpAddress) (i : Nat), i < mask →
      y.getMsbD i = (y.toNat / 2 ^ (32 - mask)).testBit (mask - 1 - i) := by
    intro y i hi
    rw [Nat.testBit_div_two_pow, BitVec.testBit_toNat, BitVec.getMsbD_eq_getLsbD]
    have hlt : i < 32 := by omega
    have hplace : 32 - 1 - i = 32 - mask + (mask - 1 - i) := by omega
    simp only [hlt, decide_true, Bool.true_and, hplace, Nat.add_comm]
  constructor
  · intro h
    refine Nat.eq_of_testBit_eq fun j => ?_
    by_cases hj : j < mask
    · have hplace : mask - 1 - (mask - 1 - j) = j := by omega
      have := h (mask - 1 - j) (by omega)
      rwa [hbit x _ (by omega), hbit ip _ (by omega), hplace] at this
    · -- Past the first `mask` bits both quotients are zero.
      have hzero : ∀ y : IpAddress, (y.toNat / 2 ^ (32 - mask)).testBit j = false := by
        intro y
        rw [Nat.testBit_div_two_pow, BitVec.testBit_toNat, BitVec.getLsbD_of_ge _ _ (by omega)]
      rw [hzero x, hzero ip]
  · intro h i hi
    rw [hbit x i hi, hbit ip i hi, h]

namespace IpFilter

/-- The base of a block, as a number. -/
theorem toNat_baseIp (ip : IpAddress) (mask : Nat) :
    (baseIp ip mask).toNat = ip.toNat / 2 ^ (32 - mask) * 2 ^ (32 - mask) := by
  refine Nat.eq_of_testBit_eq fun j => ?_
  rw [BitVec.testBit_toNat, Nat.testBit_mul_two_pow, baseIp, BitVec.getLsbD_and, BitVec.getLsbD_shiftLeft]
  have hones : ∀ i, (0xFFFFFFFF#32).getLsbD i = decide (i < 32) := fun i => BitVec.getLsbD_allOnes (v := 32)
  rw [hones, Nat.testBit_div_two_pow, BitVec.testBit_toNat]
  by_cases hj : 32 - mask ≤ j
  · have hplace : j - (32 - mask) + (32 - mask) = j := Nat.sub_add_cancel hj
    by_cases hj' : j < 32
    · have hlow : j - (32 - mask) < 32 := by omega
      simp [hj, hj', hlow, hplace]
    · simp [hj, hj', BitVec.getLsbD_of_ge ip j (by omega)]
  · simp [hj]

/-- No address of a range is past the last one. -/
theorem baseIp_add_lt (ip : IpAddress) {mask : Nat} (hmask : mask ≤ 32) {i : Nat} (hi : i < 2 ^ (32 - mask)) :
    (baseIp ip mask).toNat + i < 2 ^ 32 := by
  have hpow : 2 ^ 32 = 2 ^ mask * 2 ^ (32 - mask) := by rw [← Nat.pow_add, Nat.add_sub_cancel' hmask]
  have hquot : ip.toNat / 2 ^ (32 - mask) < 2 ^ mask := by
    rw [Nat.div_lt_iff_lt_mul (Nat.two_pow_pos _), ← hpow]
    exact ip.isLt
  rw [toNat_baseIp ip mask, hpow]
  nlinarith

/-- Within a block the addition does not wrap. -/
theorem toNat_baseIp_add (ip : IpAddress) {mask : Nat} (hmask : mask ≤ 32) {i : Nat} (hi : i < 2 ^ (32 - mask)) :
    (baseIp ip mask + BitVec.ofNat 32 i).toNat = (baseIp ip mask).toNat + i := by
  have hlt := baseIp_add_lt ip hmask hi
  rw [BitVec.toNat_add, BitVec.toNat_ofNat, Nat.add_mod_mod, Nat.mod_eq_of_lt hlt]

/-- How many addresses a block has. -/
theorem length_cidrRange (ip : IpAddress) (mask : Nat) : (cidrRange ip mask).length = 2 ^ (32 - mask) := by
  rw [cidrRange, List.length_map, List.length_range, Nat.one_shiftLeft]

/-- The addresses of a block are consecutive. -/
theorem map_toNat_cidrRange (ip : IpAddress) {mask : Nat} (hmask : mask ≤ 32) :
    (cidrRange ip mask).map BitVec.toNat = List.range' (baseIp ip mask).toNat (2 ^ (32 - mask)) := by
  rw [cidrRange, List.map_map, Nat.one_shiftLeft, List.range'_eq_map_range]
  refine List.map_congr_left fun i hi => ?_
  exact toNat_baseIp_add ip hmask (List.mem_range.mp hi)

/-- The loop covers the addresses that have the network's first bits. -/
theorem mem_cidrRange (ip : IpAddress) {mask : Nat} (hmask : mask ≤ 32) (x : IpAddress) :
    x ∈ cidrRange ip mask ↔ SameNetwork mask x ip := by
  rw [← List.mem_map_of_injective (f := BitVec.toNat) (fun _ _ => BitVec.eq_of_toNat_eq), map_toNat_cidrRange ip hmask,
    List.mem_range'_1, toNat_baseIp ip mask, sameNetwork_iff hmask, Nat.div_eq_iff (Nat.two_pow_pos _)]
  have hpos : 0 < 2 ^ (32 - mask) := Nat.two_pow_pos _
  omega

end IpFilter

/-! ## Texts of addresses and ranges -/

/-- A numeral has only digits. -/
theorem isDigit_of_mem_decimal {n : Nat} {c : UInt8} (hc : c ∈ decimal n) : isDigit c = true := by
  obtain ⟨h48, h57⟩ := mem_decimal hc
  simp [isDigit, h48, h57]

/-- Reading digits does not touch the numbers that are complete. -/
theorem foldlM_inetPtonStep_digits (octets : List Nat) {text : Bytes} (htext : ∀ c ∈ text, isDigit c = true)
    (octet : Option Nat) :
    text.foldlM inetPtonStep (octets, octet) =
      (text.foldlM (fun o c => (octetDigit o c).map some) octet).map fun o => (octets, o) := by
  induction text generalizing octet with
  | nil => rfl
  | cons c text ih =>
    rw [List.foldlM_cons, List.foldlM_cons, inetPtonStep, if_pos (htext c (by simp))]
    cases octetDigit octet c with
    | none => rfl
    | some n => exact ih (fun d hd => htext d (List.mem_cons_of_mem _ hd)) (some n)

/-- Each number of an octet is read back, by trying all. -/
theorem foldlM_octetDigit_decimal :
    ∀ n < 256, (decimal n).foldlM (fun o c => (octetDigit o c).map some) none = some (some n) := by
  decide +kernel

/-- The last octet. -/
theorem foldlM_inetPtonStep_decimal (octets : List Nat) (a : UInt8) :
    (decimal a.toNat).foldlM inetPtonStep (octets, none) = some (octets, some a.toNat) := by
  rw [foldlM_inetPtonStep_digits octets (fun c hc => isDigit_of_mem_decimal hc), foldlM_octetDigit_decimal _ a.toNat_lt]
  rfl

/-- An octet and the dot behind it. -/
theorem foldlM_inetPtonStep_dot {octets : List Nat} (hlen : octets.length < 3) (a : UInt8) (text : Bytes) :
    (decimal a.toNat ++ 46 :: text).foldlM inetPtonStep (octets, none) =
      text.foldlM inetPtonStep (octets ++ [a.toNat], none) := by
  have hdot : inetPtonStep (octets, some a.toNat) 46 = some (octets ++ [a.toNat], none) := by
    rw [inetPtonStep, if_neg (by decide), if_pos rfl]
    exact if_neg (Nat.ne_of_lt hlen)
  rw [List.foldlM_append, foldlM_inetPtonStep_decimal, Option.bind_eq_bind, Option.bind_some, List.foldlM_cons, hdot]
  rfl

/-- A dotted address. -/
def dotted (a b c d : UInt8) : Bytes :=
  decimal a.toNat ++ 46 :: (decimal b.toNat ++ 46 :: (decimal c.toNat ++ 46 :: decimal d.toNat))

/-- A dotted address is valid. -/
theorem inetPton_dotted (a b c d : UInt8) :
    inetPton (dotted a b c d) = some (addressOf a.toNat b.toNat c.toNat d.toNat) := by
  have hread : (dotted a b c d).foldlM inetPtonStep ([], none) = some ([a.toNat, b.toNat, c.toNat], some d.toNat) := by
    rw [dotted, foldlM_inetPtonStep_dot (by simp), foldlM_inetPtonStep_dot (by simp), foldlM_inetPtonStep_dot (by simp)]
    exact foldlM_inetPtonStep_decimal _ d
  rw [inetPton, hread]

/-- A valid address has digits and dots only. -/
theorem mem_of_foldlM_inetPtonStep {text : Bytes} {read read' : List Nat × Option Nat}
    (h : text.foldlM inetPtonStep read = some read') : ∀ c ∈ text, isDigit c = true ∨ c = 46 := by
  induction text generalizing read with
  | nil => intro c hc; exact absurd hc List.not_mem_nil
  | cons b text ih =>
    obtain ⟨next, hnext, h⟩ := Option.bind_eq_some_iff.mp h
    intro c hc
    rcases List.mem_cons.mp hc with rfl | hc
    · unfold inetPtonStep at hnext
      split at hnext
      · next hdigit => exact Or.inl hdigit
      · split at hnext
        · next hdot => exact Or.inr hdot
        · exact absurd hnext (by simp)
    · exact ih h c hc

/-- What `inet_pton` accepts has only digits and dots. -/
theorem mem_of_inetPton {text : Bytes} {ip : IpAddress} (h : inetPton text = some ip) :
    ∀ c ∈ text, isDigit c = true ∨ c = 46 := by
  unfold inetPton at h
  split at h
  · next hread => exact mem_of_foldlM_inetPtonStep hread
  · exact absurd h (by simp)

/-- It has neither a slash nor a null in it. -/
theorem ne_of_mem_inetPton {text : Bytes} {ip : IpAddress} (h : inetPton text = some ip) :
    ∀ b ∈ text, b ≠ 47 ∧ b ≠ 0 := by
  intro b hb
  rcases mem_of_inetPton h b hb with hdigit | rfl
  · constructor <;> rintro rfl <;> exact absurd hdigit (by decide)
  · decide

/-- So a C function reads all of it. -/
theorem cString_of_inetPton {text : Bytes} {ip : IpAddress} (h : inetPton text = some ip) : cString text = text :=
  List.takeWhile_eq_self_iff.mpr fun b hb => decide_eq_true (ne_of_mem_inetPton h b hb).2

/-- A valid address, a slash and a numeral: the text is taken apart as it was written. -/
theorem IpFilter.addCidr_numeral {address numeral : Bytes} {ip : IpAddress} {mask : Nat}
    (hvalid : inetPton address = some ip)
    (hnumeral : readDecimal numeral = some mask) (hmask : mask ≤ 32) (filter : IpFilter) :
    filter.addCidr (address ++ 47 :: numeral) =
      if mask = 0 then some filter
      else if 24 ≤ mask then some ((cidrRange ip mask).foldl IpFilter.addIp filter)
      else some (filter.addIp ip) := by
  have hslash : ∀ b ∈ address, (decide (b ≠ 47)) = true := fun b hb => decide_eq_true (ne_of_mem_inetPton hvalid b hb).1
  have hdrop : (address ++ 47 :: numeral).dropWhile (· ≠ 47) = 47 :: numeral := by
    rw [List.dropWhile_append_of_pos hslash, List.dropWhile_cons_of_neg (by decide)]
  have htake : (address ++ 47 :: numeral).takeWhile (· ≠ 47) = address := by
    rw [List.takeWhile_append_of_pos hslash, List.takeWhile_cons_of_neg (by decide), List.append_nil]
  have hstoi : stoi numeral = some (mask : Int) := stoi_of_readDecimal hnumeral (by omega)
  simp only [IpFilter.addCidr, hdrop, htake, cString_of_inetPton hvalid, hvalid, hstoi, Option.bind_eq_bind,
    Option.bind_some, Int.toNat_natCast]
  by_cases hzero : mask = 0
  · rw [if_pos (by omega), if_pos hzero]
  · rw [if_neg (by omega), if_neg hzero]
    exact if_congr (by omega) rfl rfl

/-- A range as `add_cidr` is given it: a valid address, a slash and a mask of at least 24. -/
structure Cidr where
  address : Bytes
  ip : IpAddress
  mask : Nat
  valid : inetPton address = some ip
  le_mask : 24 ≤ mask
  mask_le : mask ≤ 32

namespace Cidr

/-- The text `a.b.c.d/m`. -/
def text (c : Cidr) : Bytes := c.address ++ 47 :: decimal c.mask

/-- The range of a dotted address. -/
def ofOctets (a b c d : UInt8) (mask : Nat) (le_mask : 24 ≤ mask) (mask_le : mask ≤ 32) : Cidr :=
  ⟨dotted a b c d, addressOf a.toNat b.toNat c.toNat d.toNat, mask, inetPton_dotted a b c d, le_mask, mask_le⟩

/-- The text is taken apart as it was written, and the loop runs over the range. -/
theorem addCidr_text (c : Cidr) (filter : IpFilter) :
    filter.addCidr c.text = some ((IpFilter.cidrRange c.ip c.mask).foldl IpFilter.addIp filter) := by
  have hle := c.le_mask
  rw [text, IpFilter.addCidr_numeral c.valid (readDecimal_decimal c.mask) c.mask_le, if_neg (by omega), if_pos hle]

end Cidr

/-- A call that adds to the blacklist. -/
inductive Addition where
  | addIp (ip : IpAddress)
  | addCidr (c : Cidr)

namespace Addition

/-- The call. -/
def apply (filter : IpFilter) : Addition → Option IpFilter
  | addIp ip => some (filter.addIp ip)
  | addCidr c => filter.addCidr c.text

/-- The addresses a call is meant to block. -/
def Covers (x : IpAddress) : Addition → Prop
  | addIp ip => x = ip
  | addCidr c => SameNetwork c.mask x c.ip

/-- The addresses a call adds, in order. -/
def addresses : Addition → List IpAddress
  | addIp ip => [ip]
  | addCidr c => IpFilter.cidrRange c.ip c.mask

/-- An addition adds the addresses it stands for. -/
theorem apply_eq (a : Addition) (filter : IpFilter) :
    a.apply filter = some (a.addresses.foldl IpFilter.addIp filter) := by
  cases a with
  | addIp ip => rfl
  | addCidr c => exact c.addCidr_text filter

/-- These are the addresses it covers. -/
theorem mem_addresses (a : Addition) (x : IpAddress) : x ∈ a.addresses ↔ a.Covers x := by
  cases a with
  | addIp ip => exact List.mem_singleton
  | addCidr c => exact IpFilter.mem_cidrRange c.ip c.mask_le x

/-- So do several, one after another. -/
theorem foldlM_apply (adds : List Addition) (filter : IpFilter) :
    adds.foldlM apply filter = some ((adds.flatMap addresses).foldl IpFilter.addIp filter) := by
  induction adds generalizing filter with
  | nil => rfl
  | cons a adds ih =>
    rw [List.foldlM_cons, apply_eq, List.flatMap_cons, List.foldl_append]
    exact ih _

end Addition

/-- After any calls that add addresses and ranges, the addresses blocked are those added and those of the ranges; and
a range is the `2 ^ (32 - mask)` addresses from its base on, none of them past the last address. -/
theorem blocked_iff_added {size : Nat} (hsize : 1 ≤ size) (adds : List Addition) :
    (∃ filter, adds.foldlM Addition.apply (IpFilter.new size) = some filter ∧
      ∀ x, filter.isBlocked x = true ↔ ∃ a ∈ adds, a.Covers x) ∧
    ∀ c : Cidr, (IpFilter.cidrRange c.ip c.mask).length = 2 ^ (32 - c.mask) ∧
      (IpFilter.cidrRange c.ip c.mask).map BitVec.toNat = List.range' (IpFilter.baseIp c.ip c.mask).toNat
        (2 ^ (32 - c.mask)) ∧
      ∀ x, x ∈ IpFilter.cidrRange c.ip c.mask ↔ SameNetwork c.mask x c.ip := by
  constructor
  · refine ⟨_, Addition.foldlM_apply adds _, ?_⟩
    intro x
    rw [((IpFilter.exact_new hsize).foldl_addIp _).isBlocked x]
    simp only [Set.empty_union, Set.mem_ofPred_eq, List.mem_flatMap, Addition.mem_addresses]
  · intro c
    exact ⟨IpFilter.length_cidrRange c.ip c.mask, IpFilter.map_toNat_cidrRange c.ip c.mask_le,
      fun x => IpFilter.mem_cidrRange c.ip c.mask_le x⟩

/-- One address and one range on the blacklist. -/
def homeAdditions : List Addition :=
  [.addIp (addressOf 10 0 0 1), .addCidr (.ofOctets 192 168 1 0 24 (by decide) (by decide))]

theorem blocked_iff_added_home :
    1 ≤ 1024 ∧ ∃ filter, homeAdditions.foldlM Addition.apply (IpFilter.new 1024) = some filter ∧
      filter.isBlocked (addressOf 192 168 1 255) = true ∧ filter.isBlocked (addressOf 192 168 2 0) = false := by
  obtain ⟨⟨filter, hfilter, hblocked⟩, -⟩ := @blocked_iff_added 1024 (by decide) homeAdditions
  refine ⟨by decide, filter, hfilter, ?_, ?_⟩
  · rw [hblocked]
    refine ⟨_, List.mem_cons_of_mem _ List.mem_cons_self, ?_⟩
    show ∀ i < 24, _
    decide
  · rw [← Bool.not_eq_true, hblocked]
    rintro ⟨a, ha, hcovers⟩
    simp only [homeAdditions, List.mem_cons, List.not_mem_nil, or_false] at ha
    rcases ha with rfl | rfl
    · exact absurd hcovers (by show ¬ _ = _; decide)
    · exact absurd (hcovers 22 (by decide)) (by decide)

end HpServer
