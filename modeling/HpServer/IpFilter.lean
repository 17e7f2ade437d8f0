import HpServer.Lib.Lines
import HpServer.HttpRequestParser

/-!
# The blacklist of client addresses

`ip_filter` (`src/net/core/ip_filter.cpp`) with the two structures it looks an address up in: `bloom_filter`
(`src/util/bloom_filter.h`), asked first, and `bitwise_trie` (`src/util/bitwise_trie.h`), which decides. Addresses are
in host byte order. `inet_pton` and `stoi` are the library's, as glibc has them.
-/

namespace HpServer

/-- An IPv4 address in host byte order (`uint32_t`). -/
abbrev IpAddress := BitVec 32

/-! ## The trie -/

/-- A `unique_ptr` to a node of `bitwise_trie`: null, or a node with its value and its two children. -/
inductive BitwiseTrie (α : Type*) where
  | null
  | node (value : Option α) (zero one : BitwiseTrie α)

namespace BitwiseTrie

variable {α : Type*}

/-- The trie the constructor makes: a root with nothing below it. -/
def new : BitwiseTrie α := node none null null

/-- The loop of `search` with the bits below `n` still to be read, the highest first. -/
def searchFrom (key : IpAddress) : Nat → BitwiseTrie α → Option α
  | _, null => none
  | 0, node value _ _ => value
  | n + 1, node _ zero one => searchFrom key n (if key.getLsbD n then one else zero)

/-- `search`. -/
def search (trie : BitwiseTrie α) (key : IpAddress) : Option α := searchFrom key 32 trie

/-- The loop of `insert` with the bits below `n` still to be read. A missing child is made on the way. -/
def insertFrom (key : IpAddress) (value : α) : Nat → BitwiseTrie α → BitwiseTrie α
  | 0, null => node (some value) null null
  | 0, node _ zero one => node (some value) zero one
  | n + 1, null =>
    if key.getLsbD n then node none null (insertFrom key value n null) else node none (insertFrom key value n null) null
  | n + 1, node v zero one =>
    if key.getLsbD n then node v zero (insertFrom key value n one) else node v (insertFrom key value n zero) one

/-- `insert`. -/
def insert (trie : BitwiseTrie α) (key : IpAddress) (value : α) : BitwiseTrie α := insertFrom key value 32 trie

/-- The loop of `remove` with the bits below `n` still to be read. The nodes on the way stay. -/
def removeFrom (key : IpAddress) : Nat → BitwiseTrie α → BitwiseTrie α × Bool
  | _, null => (null, false)
  | 0, node value zero one => (node none zero one, value.isSome)
  | n + 1, node v zero one =>
    if key.getLsbD n then (node v zero (removeFrom key n one).1, (removeFrom key n one).2)
    else (node v (removeFrom key n zero).1 one, (removeFrom key n zero).2)

/-- `remove`: whether the key was there. -/
def remove (trie : BitwiseTrie α) (key : IpAddress) : BitwiseTrie α × Bool := removeFrom key 32 trie

end BitwiseTrie

/-! ## The bloom filter -/

/-- `bloom_filter`. -/
structure BloomFilter where
  bits : List Bool

namespace BloomFilter

/-- The filter of a size, with no bit set. -/
def new (size : Nat) : BloomFilter := ⟨List.replicate size false⟩

/-- `fnv1a_hash`. -/
def fnv1aHash (data : Bytes) (seed : UInt64) : UInt64 :=
  data.foldl (fun hash c => (hash ^^^ c.toUInt64) * 1099511628211) seed

/-- `compute_hashes`. -/
def computeHashes (data : Bytes) : List UInt64 :=
  [fnv1aHash data 0xcbf29ce484222325, fnv1aHash data 0x811c9dc5, fnv1aHash data 0x100000001b3]

/-- `bits_[hash % bits_.size()] = true`. -/
def setBit (bits : List Bool) (hash : UInt64) : List Bool := bits.set (hash.toNat % bits.length) true

/-- `add`. -/
def add (filter : BloomFilter) (data : Bytes) : BloomFilter := ⟨(computeHashes data).foldl setBit filter.bits⟩

/-- `contains`. -/
def contains (filter : BloomFilter) (data : Bytes) : Bool :=
  (computeHashes data).all fun hash => filter.bits.getD (hash.toNat % filter.bits.length) false

end BloomFilter

/-! ## Texts of addresses -/

/-- `std::stoi`: blanks, a sign and digits, and whatever follows; it throws without a digit and outside the range of
`int`. -/
def stoi (text : Bytes) : Option Int :=
  let (negative, rest) :=
    match text.dropWhile isSpace with
    | 45 :: rest => (true, rest)
    | 43 :: rest => (false, rest)
    | rest => (false, rest)
  let digits := rest.takeWhile isDigit
  let magnitude : Int := (digits.foldl (fun n c => 10 * n + (c.toNat - 48)) 0 : Nat)
  let value := if negative then -magnitude else magnitude
  if digits = [] ∨ value < -2147483648 ∨ 2147483647 < value then none else some value

/-- One digit of a number of `inet_pton`. Nothing follows a leading zero, and no number is over 255. -/
def octetDigit (octet : Option Nat) (c : UInt8) : Option Nat :=
  match octet with
  | none => some (c.toNat - 48)
  | some n => if n = 0 ∨ 255 < 10 * n + (c.toNat - 48) then none else some (10 * n + (c.toNat - 48))

/-- One character of `inet_pton`: the numbers that are complete, and the one being read once it has a digit. -/
def inetPtonStep (read : List Nat × Option Nat) (c : UInt8) : Option (List Nat × Option Nat) :=
  if isDigit c then (octetDigit read.2 c).map fun n => (read.1, some n)
  else if c = 46 then
    match read.2 with
    | some n => if read.1.length = 3 then none else some (read.1 ++ [n], none)
    | none => none
  else none

/-- The address of four numbers. -/
def addressOf (a b c d : Nat) : IpAddress := BitVec.ofNat 32 (((a * 256 + b) * 256 + c) * 256 + d)

/-- `inet_pton` for `AF_INET`, and `ntohl` of what it wrote. -/
def inetPton (text : Bytes) : Option IpAddress :=
  match text.foldlM inetPtonStep ([], none) with
  | some ([a, b, c], some d) => some (addressOf a b c d)
  | _ => none

/-- What a C function reads of a string: the part before the first null. -/
def cString (text : Bytes) : Bytes := text.takeWhile (· ≠ 0)

/-! ## The filter -/

/-- `ip_filter`. -/
structure IpFilter where
  trie : BitwiseTrie Bool
  bloomFilter : BloomFilter

namespace IpFilter

/-- The bytes of an address in memory, on a little-endian machine. -/
def dataOf (ip : IpAddress) : Bytes := (List.range 4).map fun i => UInt8.ofBitVec (ip.extractLsb' (8 * i) 8)

/-- The constructor. -/
def new (bloomSize : Nat) : IpFilter := ⟨BitwiseTrie.new, BloomFilter.new bloomSize⟩

/-- `add_ip`. -/
def addIp (filter : IpFilter) (ip : IpAddress) : IpFilter :=
  ⟨filter.trie.insert ip true, filter.bloomFilter.add (dataOf ip)⟩

/-- `base_ip`: the address with its last bits cleared. -/
def baseIp (ip : IpAddress) (mask : Nat) : IpAddress := ip &&& (0xFFFFFFFF#32 <<< (32 - mask))

/-- The addresses the loop of `add_cidr` adds, in order. -/
def cidrRange (ip : IpAddress) (mask : Nat) : List IpAddress :=
  (List.range (1 <<< (32 - mask))).map fun i => baseIp ip mask + BitVec.ofNat 32 i

/-- `add_cidr`; none when `stoi` throws. A mask below 24 adds the address alone. -/
def addCidr (filter : IpFilter) (cidr : Bytes) : Option IpFilter :=
  match cidr.dropWhile (· ≠ 47) with
  | [] =>
    match inetPton (cString cidr) with
    | some ip => some (filter.addIp ip)
    | none => some filter
  | _ :: maskPart => do
    let mask ← stoi maskPart
    match inetPton (cString (cidr.takeWhile (· ≠ 47))) with
    | none => some filter
    | some ip =>
      if mask ≤ 0 ∨ 32 < mask then some filter
      else if 24 ≤ mask then some ((cidrRange ip mask.toNat).foldl addIp filter)
      else some (filter.addIp ip)

/-- `is_blocked`. -/
def isBlocked (filter : IpFilter) (ip : IpAddress) : Bool :=
  filter.bloomFilter.contains (dataOf ip) && (filter.trie.search ip).isSome

/-- The lines `getline` finds in a file: cut at every line feed, with nothing behind the last one. -/
def fileLines : Bytes → List Bytes
  | [] => []
  | c :: text => if c = 10 then [] :: fileLines text else Lines.consFirst c (fileLines text)

/-- One line of the file: blank lines and comments are skipped. -/
def addLine (filter : IpFilter) (line : Bytes) : Option IpFilter :=
  if line = [] ∨ line.head? = some 35 then some filter else filter.addCidr line

/-- `init`, given the file's content if it opens; none when `stoi` throws. -/
def init (filter : IpFilter) (file : Option Bytes) : Option IpFilter :=
  match file with
  | none => some filter
  | some text => (fileLines text).foldlM addLine filter

end IpFilter

end HpServer
