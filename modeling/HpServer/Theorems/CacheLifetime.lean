import HpServer.CacheRuns

/-!
# How long a stored response lives

`parse_max_age` looks for one place in a `cache-control` value, which need not be where the list of directives has its
`max-age`; and `compute_ttl` does not look at the date of `expires`. What the lifetime should be is said here by the
directives and the date, what it is by that place. The sum that `is_fresh` compares with the clock is one of 64 bits.
-/

namespace HpServer
namespace PersistentCache

/-! ## The place `parse_max_age` finds -/

/-- The byte before a place, where `prev` stands before the text. -/
def byteBefore (prev : Option UInt8) (before : Bytes) : Option UInt8 := before.getLast?.or prev

/-- The first place of a text where `max-age=` stands at the beginning or behind a comma, a blank or a semicolon. -/
structure FirstPlace (prev : Option UInt8) (text before rest : Bytes) : Prop where
  eq : text = before ++ (ascii "max-age=" ++ rest)
  start : validStart (byteBefore prev before) = true
  first : ∀ before' rest', text = before' ++ (ascii "max-age=" ++ rest') → validStart (byteBefore prev before') = true →
    before.length ≤ before'.length

/-- The number that stands at a place, if it fits `long long`. -/
def ageAt (rest : Bytes) : Option Nat :=
  (readDecimal (rest.takeWhile fun d => 48 ≤ d ∧ d ≤ 57)).filter fun n => n < 9223372036854775808

/-- The byte before, one byte on. -/
theorem byteBefore_cons (prev : Option UInt8) (c : UInt8) (before : Bytes) :
    byteBefore prev (c :: before) = byteBefore (some c) before := by
  unfold byteBefore
  cases h : before.getLast? with
  | none => simp [List.getLast?_cons, h]
  | some b => simp [List.getLast?_cons, h]

/-- The first place of a text that does not begin with one is the first place of the rest. -/
theorem FirstPlace.cons {prev : Option UInt8} {c : UInt8} {text before rest : Bytes}
    (hno : ¬ (ascii "max-age=" <+: c :: text ∧ validStart prev = true)) (h : FirstPlace (some c) text before rest) :
    FirstPlace prev (c :: text) (c :: before) rest where
  eq := by rw [h.eq, List.cons_append]
  start := by rw [byteBefore_cons]; exact h.start
  first := by
    intro before' rest' heq hstart
    cases before' with
    | nil => exact absurd ⟨⟨rest', heq.symm⟩, hstart⟩ hno
    | cons b before' =>
      obtain ⟨rfl, htext⟩ := List.cons.inj heq
      rw [byteBefore_cons] at hstart
      exact Nat.succ_le_succ (h.first before' rest' htext hstart)

/-- And the other way around. -/
theorem FirstPlace.of_cons {prev : Option UInt8} {c : UInt8} {text before rest : Bytes}
    (hno : ¬ (ascii "max-age=" <+: c :: text ∧ validStart prev = true)) (h : FirstPlace prev (c :: text) before rest) :
    ∃ tail, FirstPlace (some c) text tail rest := by
  cases before with
  | nil => exact absurd ⟨⟨rest, h.eq.symm⟩, h.start⟩ hno
  | cons b tail =>
    obtain ⟨rfl, htext⟩ := List.cons.inj h.eq
    have hstart := h.start
    rw [byteBefore_cons] at hstart
    refine ⟨tail, htext, hstart, ?_⟩
    intro before' rest' heq hstart'
    rw [← byteBefore_cons prev] at hstart'
    exact Nat.le_of_succ_le_succ (h.first (c :: before') rest' (by rw [heq, List.cons_append]) hstart')

/-- There is one first place. -/
theorem FirstPlace.unique {prev : Option UInt8} {text before rest before' rest' : Bytes}
    (h : FirstPlace prev text before rest) (h' : FirstPlace prev text before' rest') : rest = rest' := by
  have hlength : before.length = before'.length :=
    Nat.le_antisymm (h.first _ _ h'.eq h'.start) (h'.first _ _ h.eq h.start)
  have heq := List.append_inj_right (h.eq.symm.trans h'.eq) hlength
  exact List.append_cancel_left heq

/-- Where the text begins with a place, the number that stands there is returned. -/
theorem parseMaxAgeFrom_of_place {prev : Option UInt8} {c : UInt8} {text : Bytes}
    (h : ascii "max-age=" <+: c :: text ∧ validStart prev = true) :
    parseMaxAgeFrom prev (c :: text) = (ageAt ((c :: text).drop 8)).elim (-1) fun n => (n : Int) := by
  have hmax : Int64.maxValue.toInt + 1 = 9223372036854775808 := by decide
  rw [parseMaxAgeFrom, if_pos h, ageAt, hmax]
  cases readDecimal (((c :: text).drop 8).takeWhile fun d => 48 ≤ d ∧ d ≤ 57) with
  | none => rfl
  | some n =>
    by_cases hn : n < 9223372036854775808
    · rw [Option.filter_some_pos (by simpa using hn)]
      exact if_pos (by omega)
    · rw [Option.filter_some_neg (by simpa using hn)]
      exact if_neg (by omega)

/-- The loop finds the first place, if there is one. -/
theorem parseMaxAgeFrom_spec (prev : Option UInt8) (text : Bytes) :
    (∃ before rest, FirstPlace prev text before rest ∧
      parseMaxAgeFrom prev text = (ageAt rest).elim (-1) fun n => (n : Int)) ∨
      ((∀ before rest, ¬ FirstPlace prev text before rest) ∧ parseMaxAgeFrom prev text = -1) := by
  induction text generalizing prev with
  | nil =>
    refine .inr ⟨fun before rest h => ?_, rfl⟩
    have hnil := h.eq
    simp [ascii] at hnil
  | cons c text ih =>
    by_cases hplace : ascii "max-age=" <+: c :: text ∧ validStart prev = true
    · obtain ⟨rest, hrest⟩ := hplace.1
      refine .inl ⟨[], rest, ⟨hrest.symm, hplace.2, fun _ _ _ _ => Nat.zero_le _⟩, ?_⟩
      rw [parseMaxAgeFrom_of_place hplace, ← hrest]
      rfl
    · rw [parseMaxAgeFrom, if_neg hplace]
      rcases ih (some c) with ⟨before, rest, hfirst, heq⟩ | ⟨hnone, heq⟩
      · exact .inl ⟨c :: before, rest, hfirst.cons hplace, heq⟩
      · refine .inr ⟨fun before rest h => ?_, heq⟩
        obtain ⟨tail, htail⟩ := h.of_cons hplace
        exact hnone tail rest htail

/-- The value has a number at its first place. -/
def Seen (cc : Bytes) (n : Nat) : Prop := ∃ before rest, FirstPlace none cc before rest ∧ ageAt rest = some n

/-- A `max-age` that is seen is read. -/
theorem parseMaxAge_of_seen {cc : Bytes} {n : Nat} (h : Seen cc n) : parseMaxAge cc = n := by
  obtain ⟨before, rest, hfirst, hage⟩ := h
  rcases parseMaxAgeFrom_spec none cc with ⟨before', rest', hfirst', heq⟩ | ⟨hnone, -⟩
  · rw [parseMaxAge, heq, hfirst'.unique hfirst, hage]
    rfl
  · exact absurd hfirst (hnone before rest)

/-- If none is seen, the answer is -1. -/
theorem parseMaxAge_of_not_seen {cc : Bytes} (h : ∀ n, ¬ Seen cc n) : parseMaxAge cc = -1 := by
  rcases parseMaxAgeFrom_spec none cc with ⟨before, rest, hfirst, heq⟩ | ⟨-, heq⟩
  · rw [parseMaxAge, heq]
    cases hage : ageAt rest with
    | none => rfl
    | some n => exact absurd ⟨before, rest, hfirst, hage⟩ (h n)
  · exact heq

/-- The response's `cache-control` value has one. -/
def Sees (resp : ResponseInfo) (n : Nat) : Prop := ∃ cc, resp.headers.lookup (ascii "cache-control") = some cc ∧ Seen cc n

/-- A lifetime that is seen is taken. -/
theorem computeTtl_of_sees {resp : ResponseInfo} {n : Nat} (h : Sees resp n) : computeTtl resp = n := by
  obtain ⟨cc, hcc, hseen⟩ := h
  simp only [computeTtl, hcc, parseMaxAge_of_seen hseen]
  exact if_pos (Int.natCast_nonneg n)

/-- If none is seen, it is an hour. -/
theorem computeTtl_of_not_sees {resp : ResponseInfo} (h : ∀ n, ¬ Sees resp n) : computeTtl resp = 3600 := by
  unfold computeTtl
  split
  · next cc hcc =>
    rw [parseMaxAge_of_not_seen fun n hn => h n ⟨cc, hcc, hn⟩]
    rfl
  · rfl

/-! ## What the headers say -/

/-- The directives of a `cache-control` value: its parts between commas, without the blanks around them. -/
def directives (cc : Bytes) : List Bytes := (cc.splitOn 44).map stripBlanks

/-- The number of a `max-age` directive, in whatever case its name is written, if it is below 2^63. -/
def maxAgeOf (directive : Bytes) : Option Nat :=
  if toLowerAscii (directive.take 8) = ascii "max-age=" then
    (readDecimal (directive.drop 8)).filter fun n => n < 9223372036854775808
  else none

/-- The response has a `max-age` directive. -/
def HasMaxAge (resp : ResponseInfo) (n : Nat) : Prop :=
  ∃ cc, resp.headers.lookup (ascii "cache-control") = some cc ∧ ∃ d ∈ directives cc, maxAgeOf d = some n

/-- Its `expires` header denotes an instant, where `date` says which instant a text denotes. -/
def ExpiresAt (date : Bytes → Option Int) (resp : ResponseInfo) (e : Int) : Prop :=
  (resp.headers.lookup (ascii "expires")).bind date = some e

/-- The entry of a response lives as long as its headers say, or an hour if they say nothing. -/
structure FollowsHeaders (date : Bytes → Option Int) (resp : ResponseInfo) (entry : CacheEntry) : Prop where
  maxAge : ∀ n, HasMaxAge resp n → entry.ttlSec = n
  expires : (∀ n, ¬ HasMaxAge resp n) → ∀ e, ExpiresAt date resp e → entry.storedAtUnixSec + entry.ttlSec = e
  otherwise : (∀ n, ¬ HasMaxAge resp n) → (∀ e, ¬ ExpiresAt date resp e) → entry.ttlSec = 3600

/-- The first place of the `cache-control` value gives the same lifetime: it has the number of every `max-age`
directive, or, without a directive, that of the date, or, without a date, an hour; where it has no number, an hour is
what it stands for. -/
structure PlaceAgrees (date : Bytes → Option Int) (now : Int) (resp : ResponseInfo) : Prop where
  maxAge : ∀ n, HasMaxAge resp n → Sees resp n ∨ (n = 3600 ∧ ∀ m, ¬ Sees resp m)
  expires : (∀ n, ¬ HasMaxAge resp n) → ∀ e, ExpiresAt date resp e →
    (∃ n, Sees resp n ∧ e = now + n) ∨ (e = now + 3600 ∧ ∀ m, ¬ Sees resp m)
  otherwise : (∀ n, ¬ HasMaxAge resp n) → (∀ e, ¬ ExpiresAt date resp e) → ∀ n, Sees resp n → n = 3600

variable {τ ρ : Type} (env : CacheEnv τ ρ) (date : Bytes → Option Int)

/-- When a lifetime is seen. -/
theorem followsHeaders_iff_of_sees {now : Int} {resp : ResponseInfo} {n : Nat} (h : Sees resp n) :
    FollowsHeaders date resp (makeEntry env now resp) ↔ PlaceAgrees date now resp := by
  have httl : (makeEntry env now resp).ttlSec = n := computeTtl_of_sees h
  have hunique : ∀ m, Sees resp m → m = n := by
    intro m hm
    exact Int.ofNat.inj ((computeTtl_of_sees hm).symm.trans (computeTtl_of_sees h))
  constructor
  · intro hfollows
    constructor
    · intro m hm
      have heq := hfollows.maxAge m hm
      rw [httl, Int.natCast_inj] at heq
      exact .inl (heq ▸ h)
    · intro hno e he
      exact .inl ⟨n, h, ((congrArg (now + ·) httl).symm.trans (hfollows.expires hno e he)).symm⟩
    · intro hno hnodate m hm
      have heq := hfollows.otherwise hno hnodate
      rw [httl] at heq
      rw [hunique m hm]
      omega
  · intro hagrees
    constructor
    · intro m hm
      rcases hagrees.maxAge m hm with hsees | ⟨-, hnone⟩
      · rw [httl, hunique m hsees]
      · exact absurd h (hnone n)
    · intro hno e he
      rcases hagrees.expires hno e he with ⟨m, hm, heq⟩ | ⟨-, hnone⟩
      · rw [heq, hunique m hm, httl]
        rfl
      · exact absurd h (hnone n)
    · intro hno hnodate
      rw [httl, hagrees.otherwise hno hnodate n h]
      rfl

/-- When none is seen. -/
theorem followsHeaders_iff_of_not_sees {now : Int} {resp : ResponseInfo} (h : ∀ n, ¬ Sees resp n) :
    FollowsHeaders date resp (makeEntry env now resp) ↔ PlaceAgrees date now resp := by
  have httl : (makeEntry env now resp).ttlSec = 3600 := computeTtl_of_not_sees h
  constructor
  · intro hfollows
    constructor
    · intro m hm
      have heq := hfollows.maxAge m hm
      rw [httl] at heq
      exact .inr ⟨by omega, h⟩
    · intro hno e he
      exact .inr ⟨((congrArg (now + ·) httl).symm.trans (hfollows.expires hno e he)).symm, h⟩
    · intro _ _ m hm
      exact absurd hm (h m)
  · intro hagrees
    constructor
    · intro m hm
      rcases hagrees.maxAge m hm with hsees | ⟨heq, -⟩
      · exact absurd hsees (h m)
      · rw [httl, heq]
        rfl
    · intro hno e he
      rcases hagrees.expires hno e he with ⟨m, hm, -⟩ | ⟨heq, -⟩
      · exact absurd hm (h m)
      · rw [heq, httl]
        rfl
    · intro _ _
      exact httl

end PersistentCache

open PersistentCache

/-- The entry made of a response lives as long as its headers say exactly when the first place of its `cache-control`
value gives that lifetime. -/
theorem ttl_follows_headers_iff {τ ρ : Type} (env : CacheEnv τ ρ) (date : Bytes → Option Int) (now : Int)
    (resp : ResponseInfo) :
    FollowsHeaders date resp (makeEntry env now resp) ↔ PlaceAgrees date now resp := by
  by_cases h : ∃ n, Sees resp n
  · obtain ⟨n, hn⟩ := h
    exact followsHeaders_iff_of_sees env date hn
  · exact followsHeaders_iff_of_not_sees env date fun n hn => h ⟨n, hn⟩

/-- A response that expires at an instant, and one whose `max-age` is not in lower case. -/
def expiringResponse : ResponseInfo := { headers := [(ascii "expires", ascii "Thu, 01 Jan 1970 00:01:00 GMT")] }
/-- A response that writes the directive in capitals. -/
def capitalResponse : ResponseInfo := { headers := [(ascii "cache-control", ascii "public, Max-Age=60")] }

/-- Stored when the clock shows zero, both live for an hour, though the one expires at 60 and the other has the
directive for 60. -/
theorem ttl_ignores_headers :
    (computeTtl expiringResponse = 3600 ∧
      ¬ FollowsHeaders (fun _ => some 60) expiringResponse (makeEntry Page.env 0 expiringResponse)) ∧
    computeTtl capitalResponse = 3600 ∧ HasMaxAge capitalResponse 60 ∧
      ¬ FollowsHeaders (fun _ => none) capitalResponse (makeEntry Page.env 0 capitalResponse) := by
  have hexpires : computeTtl expiringResponse = 3600 := by decide
  have hcapital : computeTtl capitalResponse = 3600 := by decide +kernel
  have hmaxAge : HasMaxAge capitalResponse 60 := ⟨_, rfl, ascii "Max-Age=60", by decide +kernel, by decide +kernel⟩
  refine ⟨⟨hexpires, fun h => ?_⟩, hcapital, hmaxAge, fun h => ?_⟩
  · have hno : ∀ n, ¬ HasMaxAge expiringResponse n := by
      rintro n ⟨cc, hcc, -⟩
      exact absurd hcc (by simp [expiringResponse, ascii])
    have hend : (0 : Int) + computeTtl expiringResponse = 60 := h.expires hno 60 rfl
    rw [hexpires] at hend
    exact absurd hend (by decide)
  · have hlife : computeTtl capitalResponse = (60 : Nat) := h.maxAge 60 hmaxAge
    rw [hcapital] at hlife
    exact absurd hlife (by decide)

/-! ## Sums of seconds -/

namespace PersistentCache

/-- The sum of two `int64_t` is one. -/
def NoOverflow (a b : Int64) : Prop := Int64.minValue.toInt ≤ a.toInt + b.toInt ∧ a.toInt + b.toInt ≤ Int64.maxValue.toInt

instance (a b : Int64) : Decidable (NoOverflow a b) :=
  inferInstanceAs (Decidable (Int64.minValue.toInt ≤ a.toInt + b.toInt ∧ a.toInt + b.toInt ≤ Int64.maxValue.toInt))

/-- Then the sum is the sum. -/
theorem toInt_add_of_noOverflow {a b : Int64} (h : NoOverflow a b) : (a + b).toInt = a.toInt + b.toInt := by
  have hmin : Int64.minValue.toInt = -9223372036854775808 := by decide
  have hmax : Int64.maxValue.toInt = 9223372036854775807 := by decide
  obtain ⟨hlow, hhigh⟩ := h
  rw [Int64.toInt_add, Int.bmod_eq_of_le]
  · omega
  · omega

/-- Without an overflow the comparison is one of integers. -/
theorem isFreshInt64_iff {now storedAt ttl : Int64} (h : NoOverflow storedAt ttl) :
    isFreshInt64 now storedAt ttl = true ↔ now.toInt ≤ storedAt.toInt + ttl.toInt := by
  rw [isFreshInt64, decide_eq_true_eq, Int64.le_iff_toInt_le, toInt_add_of_noOverflow h]

/-- So `is_fresh` is what the model of the cache has, as long as nothing overflows. -/
theorem isFreshInt64_eq_isFresh {now storedAt ttl : Int64} {entry : CacheEntry}
    (hstored : entry.storedAtUnixSec = storedAt.toInt)
    (httl : entry.ttlSec = ttl.toInt) (h : NoOverflow storedAt ttl) :
    isFreshInt64 now storedAt ttl = isFresh now.toInt entry := by
  rw [Bool.eq_iff_iff, isFreshInt64_iff h, isFresh, decide_eq_true_eq, hstored, httl]

/-- A `max-age` that is accepted fits. -/
theorem parseMaxAge_le {cc : Bytes} {n : Nat} (h : parseMaxAge cc = n) : n ≤ 9223372036854775807 := by
  by_cases hseen : ∃ m, Seen cc m
  · obtain ⟨m, hm⟩ := hseen
    have heq : m = n := Int.ofNat.inj ((parseMaxAge_of_seen hm).symm.trans h)
    obtain ⟨before, rest, -, hage⟩ := hm
    have hlt := (Option.filter_eq_some_iff.mp hage).2
    simp only [decide_eq_true_eq] at hlt
    omega
  · rw [parseMaxAge_of_not_seen fun m hm => hseen ⟨m, hm⟩] at h
    omega

end PersistentCache

/-- For a `max-age` of `n` seconds that `parse_max_age` accepts, `is_fresh` adds without an overflow and compares as
the integers do exactly when the store time and `n` seconds are below 2^63. -/
theorem freshness_exact_iff {cc : Bytes} {n : Nat} (hcc : parseMaxAge cc = n) {stored : Int64}
    (hstored : 0 ≤ stored) (now : Int64) :
    (NoOverflow stored (Int64.ofInt n) ∧
        (isFreshInt64 now stored (Int64.ofInt n) = true ↔ now.toInt ≤ stored.toInt + n)) ↔
      stored.toInt + n < 9223372036854775808 := by
  have hmin : Int64.minValue.toInt = -9223372036854775808 := by decide
  have hmax : Int64.maxValue.toInt = 9223372036854775807 := by decide
  have hle := parseMaxAge_le hcc
  have hofInt : (Int64.ofInt n).toInt = n := Int64.toInt_ofInt_of_le (by omega) (by omega)
  have hnonneg : 0 ≤ stored.toInt := Int64.le_iff_toInt_le.mp hstored
  constructor
  · rintro ⟨hno, -⟩
    have hhigh := hno.2
    rw [hofInt] at hhigh
    omega
  · intro hsum
    have hno : NoOverflow stored (Int64.ofInt n) := by
      rw [NoOverflow, hofInt]
      omega
    refine ⟨hno, ?_⟩
    rw [isFreshInt64_iff hno, hofInt]

/-- An hour, stored in 2026. -/
theorem freshness_exact_of_hour : isFreshInt64 1790003600 1790000000 (Int64.ofInt (3600 : Nat)) = true := by
  have hcc : parseMaxAge (ascii "max-age=3600") = (3600 : Nat) := by decide +kernel
  have hstored : (0 : Int64) ≤ 1790000000 := by decide
  obtain ⟨-, hfresh⟩ := (freshness_exact_iff hcc hstored 1790003600).mpr (by decide)
  exact hfresh.mpr (by decide)

/-- The largest `max-age` there is, stored and looked up one second after the epoch: the sum wraps around, and the
entry is not fresh. -/
theorem freshness_overflows :
    parseMaxAge (ascii "max-age=9223372036854775807") = (9223372036854775807 : Nat) ∧
      ¬ NoOverflow 1 (Int64.ofInt (9223372036854775807 : Nat)) ∧
      isFreshInt64 1 1 (Int64.ofInt (9223372036854775807 : Nat)) = false ∧
        (1 : Int) ≤ 1 + (9223372036854775807 : Nat) := by
  refine ⟨by decide +kernel, by decide +kernel, by decide +kernel, by decide⟩

end HpServer
