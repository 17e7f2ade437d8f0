import HpServer.Lemmas.HttpCacheSpec
import HpServer.Lemmas.ParsedResponse

/-!
# What `store` refuses, and what is answered with 304

A `store` succeeds only for a complete response of 2xx to a `GET`, and one that does not succeed leaves no trace
(`failed_store_leaves_no_trace`). A lookup answers 304 when a validator of the request matches the entry; entity tags
are compared without regard to case and to the quotes at their ends, which is not what an entity tag is
(`not_modified_only_if_matching`).
-/

namespace HpServer

open Llhttp

/-! ## Stores that fail -/

section

variable {τ ρ : Type} (env : CacheEnv τ ρ)

/-- The cache after some calls, each at its time. -/
def HttpCache.callAll (c : HttpCache ρ) : List (Int × CacheCall) → HttpCache ρ
  | [] => c
  | (now, .lookup req) :: calls => callAll (c.lookup env now req).1 calls
  | (now, .store req response putOk) :: calls => callAll (c.store env now req response putOk).1 calls

/-- A `store` returns true only for a `GET` that is no `CONNECT`, when the cache is open and RocksDB takes the entry,
and when the bytes end with a complete response of 200 to 299. When it returns false the cache is what it was, and so
is what every later lookup gives. -/
theorem failed_store_leaves_no_trace (c : HttpCache ρ) (now : Int) (req : RequestInfo) (response : Bytes) (putOk : Bool) :
    ((c.store env now req response putOk).2 = true →
      (req.isConnect = false ∧ req.method = ascii "GET") ∧ c.l2.isSome ∧ putOk = true ∧
        CompleteResponse env.lexer response ∧
        200 ≤ (HttpResponseParser.afterReading env.lexer response).response.statusCode ∧
        (HttpResponseParser.afterReading env.lexer response).response.statusCode ≤ 299) ∧
    ((c.store env now req response putOk).2 = false →
      (c.store env now req response putOk).1 = c ∧ ∀ (calls : List (Int × CacheCall)) (t : Int) (req' : RequestInfo),
        ((c.store env now req response putOk).1.callAll env calls).lookup env t req' =
          (c.callAll env calls).lookup env t req') := by
  constructor
  · intro hstore
    cases hreq : HttpCache.isCacheableRequest req with
    | false => simp [HttpCache.store, hreq] at hstore
    | true =>
      cases hdb : c.l2 with
      | none => simp [HttpCache.store_unopened env hdb] at hstore
      | some db =>
        have heq := HttpCache.store_eq env hreq hdb (Prod.eta (PersistentCache.store env db now _ response putOk)).symm
        rw [heq] at hstore
        obtain ⟨info, -, hinfo, -⟩ := PersistentCache.store_true env hstore
        obtain ⟨hsuccess, hcomplete, rfl⟩ := PersistentCache.parseUpstream_complete hinfo
        rw [HttpCache.isCacheableRequest, Bool.and_eq_true, Bool.not_eq_true', decide_eq_true_eq] at hreq
        have hput : putOk = true := by
          cases putOk with
          | true => rfl
          | false =>
            rw [PersistentCache.store, hinfo] at hstore
            cases hraw : env.codec.serialize (PersistentCache.makeEntry env now
              (HttpResponseParser.afterReading env.lexer response).response) <;> simp [hraw] at hstore
        exact ⟨hreq, rfl, hput, hcomplete, by omega, by omega⟩
  · intro hstore
    have hsame := HttpCache.store_false env hstore
    refine ⟨hsame, ?_⟩
    intro calls t req'
    rw [hsame]

end

/-- The page is stored; what is left of it without its last byte is not. -/
theorem failed_store_leaves_no_trace_page :
    CompleteResponse Page.lexer Page.brief ∧
      (Page.start.cache.store Page.env 0 Page.request Page.brief.dropLast true).1 = Page.start.cache := by
  constructor
  · obtain ⟨-, -, -, hcomplete, -⟩ :=
      (failed_store_leaves_no_trace Page.env Page.start.cache 0 Page.request Page.brief true).1 (by decide +kernel)
    exact hcomplete
  · exact ((failed_store_leaves_no_trace Page.env Page.start.cache 0 Page.request Page.brief.dropLast true).2
      (by decide +kernel)).1

/-! ## Entity tags -/

/-- A byte of the opaque value of an entity tag. -/
def isEtagChar (c : UInt8) : Bool := c = 0x21 || (0x23 ≤ c && c ≤ 0x7e) || 0x80 ≤ c

/-- An entity tag and its opaque value, which stands in quotes, with `W/` before it if the tag is weak. -/
inductive EntityTag : Bytes → Bytes → Prop where
  | strong {value : Bytes} : value.all isEtagChar = true → EntityTag (34 :: value ++ [34]) value
  | weak {value : Bytes} : value.all isEtagChar = true → EntityTag (87 :: 47 :: 34 :: value ++ [34]) value

/-- Nothing but blanks. -/
def isOws (text : Bytes) : Bool := text.all fun c => c = 32 || c = 9

/-- An element of a list of entity tags: a tag, given by its opaque value, or none. -/
inductive TagElement : Bytes → Option Bytes → Prop where
  | none {w : Bytes} : isOws w = true → TagElement w none
  | tag {a b t value : Bytes} : isOws a = true → EntityTag t value → isOws b = true →
    TagElement (a ++ t ++ b) (some value)

/-- The value of an `If-None-Match` field, and the opaque values of the tags in it. -/
inductive TagList : Bytes → List Bytes → Prop where
  | last {e : Bytes} {o : Option Bytes} : TagElement e o → TagList e o.toList
  | more {e rest : Bytes} {o : Option Bytes} {values : List Bytes} : TagElement e o → TagList rest values →
      TagList (e ++ 44 :: rest) (o.toList ++ values)

/-- A validator of the request matches the entry: a tag in `If-None-Match` has the opaque value of the entry's; or
there is no `If-None-Match`, and `If-Modified-Since` is what the entry has for `Last-Modified`. -/
def ValidatorMatches (req : RequestInfo) (entry : CacheEntry) : Prop :=
  (∃ inm values value, req.headers.lookup (ascii "if-none-match") = some inm ∧ TagList inm values ∧ value ∈ values ∧
    EntityTag entry.etag value) ∨
  (req.headers.lookup (ascii "if-none-match") = none ∧
    req.headers.lookup (ascii "if-modified-since") = some entry.lastModified)

/-- What goes between tags. -/
def isSeparator (text : Bytes) : Prop := ∀ c ∈ text, c = 32 ∨ c = 9 ∨ c = 44

/-- Optional white space separates. -/
theorem isSeparator_of_isOws {w : Bytes} (h : isOws w = true) : isSeparator w := by
  intro c hc
  have hblank := List.all_eq_true.mp h c hc
  simp only [Bool.or_eq_true, decide_eq_true_eq] at hblank
  rcases hblank with hblank | hblank
  · exact .inl hblank
  · exact .inr (.inl hblank)

/-- Separators may be joined. -/
theorem isSeparator.append {a b : Bytes} (ha : isSeparator a) (hb : isSeparator b) : isSeparator (a ++ b) := by
  intro c hc
  rcases List.mem_append.mp hc with hc | hc
  · exact ha c hc
  · exact hb c hc

/-- A separator has no quote in it. -/
theorem isSeparator.quote_notMem {a : Bytes} (ha : isSeparator a) : 34 ∉ a := by
  intro hmem
  rcases ha 34 hmem with h | h | h <;> exact absurd h (by decide)

/-- Nor has the value of an entity tag. -/
theorem quote_notMem_of_etag {value : Bytes} (h : value.all isEtagChar = true) : 34 ∉ value := by
  intro hmem
  exact absurd (List.all_eq_true.mp h 34 hmem) (by decide)

/-- A tag has two quotes. -/
theorem EntityTag.count_quotes {t value : Bytes} (h : EntityTag t value) : t.count 34 = 2 := by
  cases h with
  | strong hvalue => simp [List.count_eq_zero_of_not_mem (quote_notMem_of_etag hvalue)]
  | weak hvalue => simp [List.count_eq_zero_of_not_mem (quote_notMem_of_etag hvalue)]

/-- A tag brings two quotes, an empty element none. -/
theorem TagElement.count_quotes {e : Bytes} {o : Option Bytes} (h : TagElement e o) :
    e.count 34 = 2 * o.toList.length := by
  cases h with
  | none hw => simp [List.count_eq_zero_of_not_mem (isSeparator_of_isOws hw).quote_notMem]
  | tag ha ht hb =>
    simp [ht.count_quotes, List.count_eq_zero_of_not_mem (isSeparator_of_isOws ha).quote_notMem,
      List.count_eq_zero_of_not_mem (isSeparator_of_isOws hb).quote_notMem]

/-- A list has two quotes for each tag. -/
theorem TagList.count_quotes {list : Bytes} {values : List Bytes} (h : TagList list values) :
    list.count 34 = 2 * values.length := by
  induction h with
  | last he => exact he.count_quotes
  | more he _ ih =>
    rw [List.count_append, List.count_cons_of_ne (by decide), he.count_quotes, ih, List.length_append]
    omega

/-- A list without tags is a separator. -/
theorem TagList.separator {list : Bytes} {values : List Bytes} (h : TagList list values) (hnil : values = []) :
    isSeparator list := by
  induction h with
  | last he =>
    cases he with
    | none hw => exact isSeparator_of_isOws hw
    | tag => cases hnil
  | more he _ ih =>
    obtain ⟨ho, hvalues⟩ := List.append_eq_nil_iff.mp hnil
    cases he with
    | none hw =>
      have hcomma : isSeparator [44] := by
        intro c hc
        exact .inr (.inr (List.mem_singleton.mp hc))
      exact (isSeparator_of_isOws hw).append (hcomma.append (ih hvalues))
    | tag => cases ho

/-- A list of one tag. -/
theorem TagList.single {list value : Bytes} {values : List Bytes} (h : TagList list values) (hone : values = [value]) :
    ∃ p t q, list = p ++ t ++ q ∧ isSeparator p ∧ EntityTag t value ∧ isSeparator q := by
  have hcomma : isSeparator [44] := by
    intro c hc
    exact .inr (.inr (List.mem_singleton.mp hc))
  induction h with
  | last he =>
    cases he with
    | none => cases hone
    | tag ha ht hb =>
      obtain rfl := (List.cons.inj hone).1
      exact ⟨_, _, _, rfl, isSeparator_of_isOws ha, ht, isSeparator_of_isOws hb⟩
  | more he hrest ih =>
    cases he with
    | none hw =>
      obtain ⟨p, t, q, rfl, hp, ht, hq⟩ := ih hone
      exact ⟨_ ++ ([44] ++ p), t, q, by simp, (isSeparator_of_isOws hw).append (hcomma.append hp), ht, hq⟩
    | tag ha ht hb =>
      obtain ⟨rfl, hnil⟩ := List.cons.inj hone
      exact ⟨_, _, _ ++ ([44] ++ _), by simp, isSeparator_of_isOws ha, ht,
        (isSeparator_of_isOws hb).append (hcomma.append (hrest.separator hnil))⟩

/-! ## How the tags are compared -/

/-- Only the quote becomes a quote in lower case. -/
theorem lower_eq_quote (c : UInt8) : (if 65 ≤ c ∧ c ≤ 90 then c + 32 else c) = 34 ↔ c = 34 := by
  by_cases h : 65 ≤ c ∧ c ≤ 90
  · rw [if_pos h]
    constructor
    · intro heq
      exact absurd (heq ▸ lower_capital h) (by decide)
    · rintro rfl
      exact absurd h.1 (by decide)
  · rw [if_neg h]

theorem toLowerAscii_append (a b : Bytes) : toLowerAscii (a ++ b) = toLowerAscii a ++ toLowerAscii b := List.map_append

/-- Lower case keeps the quotes. -/
theorem count_quotes_toLowerAscii (text : Bytes) : (toLowerAscii text).count 34 = text.count 34 := by
  induction text with
  | nil => rfl
  | cons c text ih =>
    have hcons : toLowerAscii (c :: text) = (if 65 ≤ c ∧ c ≤ 90 then c + 32 else c) :: toLowerAscii text := rfl
    rw [hcons, List.count_cons, List.count_cons, ih]
    simp only [beq_iff_eq, lower_eq_quote]

/-- Lower case keeps what goes between tags. -/
theorem isSeparator.toLowerAscii_eq {a : Bytes} (h : isSeparator a) : toLowerAscii a = a := by
  rw [toLowerAscii]
  conv_rhs => rw [← List.map_id a]
  refine List.map_congr_left fun c hc => ?_
  rcases h c hc with rfl | rfl | rfl <;> rfl

/-- What `trim_quotes` takes off. -/
theorem trimQuotes_cases (s : Bytes) :
    ∃ a b, s = a ++ PersistentCache.trimQuotes s ++ b ∧ (a = [] ∨ a = [34]) ∧ (b = [] ∨ b = [34]) := by
  have hback : ∀ r : Bytes, ∃ b, r = (if r.getLast? = some 34 then r.dropLast else r) ++ b ∧ (b = [] ∨ b = [34]) := by
    intro r
    split
    · rename_i hlast
      exact ⟨[34], (List.dropLast_append_getLast? 34 hlast).symm, .inr rfl⟩
    · exact ⟨[], by simp, .inl rfl⟩
  rw [PersistentCache.trimQuotes]
  split
  · rename_i hhead
    obtain ⟨rest, rfl⟩ := List.head?_eq_some_iff.mp hhead
    obtain ⟨b, hb, hcases⟩ := hback rest
    exact ⟨[34], b, by rw [List.drop_one, List.tail_cons, List.append_assoc, ← hb]; rfl, .inr rfl, hcases⟩
  · obtain ⟨b, hb, hcases⟩ := hback s
    exact ⟨[], b, by simpa using hb, .inl rfl, hcases⟩

/-- The quotes of a strong tag are taken off. -/
theorem trimQuotes_strong (value : Bytes) :
    PersistentCache.trimQuotes (toLowerAscii (34 :: value ++ [34])) = toLowerAscii value := by
  have hlower : toLowerAscii (34 :: value ++ [34]) = 34 :: (toLowerAscii value ++ [34]) := by simp [toLowerAscii]
  rw [hlower]
  simp [PersistentCache.trimQuotes]

/-- The first of the two quotes of a weak tag is not at its end, and stays. -/
theorem trimQuotes_weak (value : Bytes) :
    PersistentCache.trimQuotes (toLowerAscii (87 :: 47 :: 34 :: value ++ [34])) =
      119 :: 47 :: 34 :: toLowerAscii value := by
  have hlower : toLowerAscii (87 :: 47 :: 34 :: value ++ [34]) = (119 :: 47 :: 34 :: toLowerAscii value) ++ [34] := by
    simp [toLowerAscii]
  rw [hlower]
  generalize hfront : (119 :: 47 :: 34 :: toLowerAscii value : Bytes) = front
  have hhead : (front ++ [34]).head? ≠ some 34 := by simp [← hfront]
  simp only [PersistentCache.trimQuotes, hhead, if_false, List.getLast?_concat, if_true, List.dropLast_concat]

/-- What begins with another character begins with no separator. -/
theorem isSeparator.eq_nil_of_front {a rest rest' : Bytes} {c : UInt8} (ha : isSeparator a)
    (hc : ¬(c = 32 ∨ c = 9 ∨ c = 44)) (heq : a ++ rest = c :: rest') : a = [] := by
  cases a with
  | nil => rfl
  | cons d a =>
    obtain ⟨rfl, -⟩ := List.cons.inj heq
    exact absurd (ha d (by simp)) hc

/-- What ends with another character ends with none. -/
theorem isSeparator.eq_nil_of_back {a rest rest' : Bytes} {c : UInt8} (ha : isSeparator a)
    (hc : ¬(c = 32 ∨ c = 9 ∨ c = 44)) (heq : rest ++ a = rest' ++ [c]) : a = [] := by
  rcases List.eq_nil_or_concat a with rfl | ⟨a', d, rfl⟩
  · rfl
  · rw [List.concat_eq_append] at ha heq
    rw [← List.append_assoc] at heq
    obtain ⟨-, hlast⟩ := List.append_inj' heq rfl
    obtain ⟨rfl, -⟩ := List.cons.inj hlast
    exact absurd (ha d (by simp)) hc

theorem quote_not_separator : ¬((34 : UInt8) = 32 ∨ (34 : UInt8) = 9 ∨ (34 : UInt8) = 44) := by decide

theorem w_not_separator : ¬((119 : UInt8) = 32 ∨ (119 : UInt8) = 9 ∨ (119 : UInt8) = 44) := by decide

theorem count_quotes_of_etag {value : Bytes} (h : value.all isEtagChar = true) : (toLowerAscii value).count 34 = 0 := by
  rw [count_quotes_toLowerAscii]
  exact List.count_eq_zero_of_not_mem (quote_notMem_of_etag h)

/-- With one tag in it, a list is the tag and what goes around it, also in lower case. -/
theorem TagList.lower_single {inm value : Bytes} {values : List Bytes} (hlist : TagList inm values)
    (hvalue : value ∈ values)
    (hlen : values.length = 1) : ∃ p t q, inm = p ++ t ++ q ∧ isSeparator p ∧ EntityTag t value ∧ isSeparator q ∧
      toLowerAscii inm = p ++ (toLowerAscii t ++ q) := by
  obtain ⟨v, rfl⟩ := List.length_eq_one_iff.mp hlen
  obtain rfl := List.mem_singleton.mp hvalue
  obtain ⟨p, t, q, rfl, hp, ht, hq⟩ := hlist.single rfl
  refine ⟨p, t, q, rfl, hp, ht, hq, ?_⟩
  rw [toLowerAscii_append, toLowerAscii_append, hp.toLowerAscii_eq, hq.toLowerAscii_eq, List.append_assoc]

/-- A list that compares equal to a strong tag in it: both of the quotes it has are at its ends. -/
theorem TagList.eq_strong {inm value : Bytes} {values : List Bytes} (hlist : TagList inm values) (hvalue : value ∈ values)
    (hall : value.all isEtagChar = true)
    (hcompare : PersistentCache.trimQuotes (toLowerAscii inm) =
      PersistentCache.trimQuotes (toLowerAscii (34 :: value ++ [34]))) :
    inm = 34 :: value ++ [34] := by
  have hpos := List.length_pos_of_mem hvalue
  have hcount := hlist.count_quotes
  obtain ⟨a, b, hinm, ha, hb⟩ := trimQuotes_cases (toLowerAscii inm)
  rw [hcompare, trimQuotes_strong] at hinm
  rw [← count_quotes_toLowerAscii, hinm, List.count_append, List.count_append, count_quotes_of_etag hall] at hcount
  rcases ha with rfl | rfl <;> rcases hb with rfl | rfl <;> simp only [List.count_nil,
    List.count_singleton_self] at hcount
  · omega
  · omega
  · omega
  obtain ⟨p, t, q, rfl, hp, ht, hq, hlower⟩ := hlist.lower_single hvalue (by omega)
  rw [hlower] at hinm
  obtain rfl := hp.eq_nil_of_front quote_not_separator hinm
  rw [List.nil_append] at hinm
  obtain rfl := hq.eq_nil_of_back quote_not_separator hinm
  cases ht with
  | strong => simp
  | weak =>
    obtain ⟨hfirst, -⟩ := List.cons.inj hinm
    exact absurd hfirst (by decide)

/-- A list that compares equal to a weak tag in it has one of its two quotes at its end. -/
theorem TagList.eq_weak {inm value : Bytes} {values : List Bytes} (hlist : TagList inm values) (hvalue : value ∈ values)
    (hall : value.all isEtagChar = true)
    (hcompare : PersistentCache.trimQuotes (toLowerAscii inm) =
      PersistentCache.trimQuotes (toLowerAscii (87 :: 47 :: 34 :: value ++ [34]))) : inm =
        87 :: 47 :: 34 :: value ++ [34] := by
  have hpos := List.length_pos_of_mem hvalue
  have hcount := hlist.count_quotes
  have hno := count_quotes_of_etag hall
  obtain ⟨a, b, hinm, ha, hb⟩ := trimQuotes_cases (toLowerAscii inm)
  rw [hcompare, trimQuotes_weak] at hinm
  rw [← count_quotes_toLowerAscii, hinm, List.count_append, List.count_append, List.count_cons_of_ne (by decide),
    List.count_cons_of_ne (by decide), List.count_cons_self, hno] at hcount
  rcases ha with rfl | rfl <;> rcases hb with rfl | rfl <;> simp only [List.count_nil,
    List.count_singleton_self] at hcount
  · omega
  · obtain ⟨p, t, q, rfl, hp, ht, hq, hlower⟩ := hlist.lower_single hvalue (by omega)
    rw [hlower] at hinm
    obtain rfl := hp.eq_nil_of_front w_not_separator hinm
    rw [List.nil_append] at hinm
    obtain rfl := hq.eq_nil_of_back quote_not_separator hinm
    cases ht with
    | strong =>
      obtain ⟨hfirst, -⟩ := List.cons.inj hinm
      exact absurd hfirst (by decide)
    | weak => simp
  · -- the quote at the front would be the first one of the tag, which `w/` follows
    obtain ⟨p, t, q, rfl, hp, ht, hq, hlower⟩ := hlist.lower_single hvalue (by omega)
    rw [hlower] at hinm
    obtain rfl := hp.eq_nil_of_front quote_not_separator hinm
    cases ht with
    | strong =>
      have hsplit : toLowerAscii value ++ 34 :: q = [119, 47] ++ 34 :: toLowerAscii value := by
        simpa [toLowerAscii] using hinm
      have hmem : (34 : UInt8) ∉ toLowerAscii value := List.count_eq_zero.mp hno
      obtain ⟨hvalue', -, hrest⟩ := (List.append_cons_inj_of_notMem hmem hq.quote_notMem).mp hsplit
      rw [hvalue'] at hrest
      exact absurd (hq 119 (by simp [hrest])) w_not_separator
    | weak =>
      obtain ⟨hfirst, -⟩ := List.cons.inj hinm
      exact absurd hfirst (by decide)
  · omega

/-- A tag that is in a list of tags and compares equal to the list is the list. -/
theorem eq_of_compares_equal {inm etag value : Bytes} {values : List Bytes} (hlist : TagList inm values)
    (hvalue : value ∈ values) (htag : EntityTag etag value)
    (hcompare : PersistentCache.trimQuotes (toLowerAscii inm) = PersistentCache.trimQuotes (toLowerAscii etag)) :
    inm = etag := by
  cases htag with
  | strong hall => exact hlist.eq_strong hvalue hall hcompare
  | weak hall => exact hlist.eq_weak hvalue hall hcompare

/-- What keeps the comparison from matching in error: where the request has an `If-None-Match` and the entry an entity
tag, and the two are equal but for case and for quotes at their ends, they are the same, and one entity tag; where the
entry has none, `If-Modified-Since` is not what it has for `Last-Modified`. -/
def ComparesExactly (req : RequestInfo) (entry : CacheEntry) : Prop :=
  ∀ inm, req.headers.lookup (ascii "if-none-match") = some inm →
    if entry.etag = [] then entry.lastModified = [] ∨
      req.headers.lookup (ascii "if-modified-since") ≠ some entry.lastModified
    else PersistentCache.trimQuotes (toLowerAscii inm) = PersistentCache.trimQuotes (toLowerAscii entry.etag) →
      inm = entry.etag ∧ ∃ value, EntityTag entry.etag value

/-- The date is compared as a text. -/
theorem byDate_eq_true {req : RequestInfo} {entry : CacheEntry} :
    PersistentCache.checkNotModified.byDate req entry = true ↔
      entry.lastModified ≠ [] ∧ req.headers.lookup (ascii "if-modified-since") = some entry.lastModified := by
  rw [PersistentCache.checkNotModified.byDate]
  cases hims : req.headers.lookup (ascii "if-modified-since") with
  | none => simp
  | some ims =>
    by_cases hempty : entry.lastModified = []
    · simp [hempty]
    · simp [hempty]

/-- With an `If-None-Match`, only its tags count. -/
theorem validatorMatches_iff {req : RequestInfo} {inm : Bytes}
    (hinm : req.headers.lookup (ascii "if-none-match") = some inm) (entry : CacheEntry) :
    ValidatorMatches req entry ↔ ∃ values value, TagList inm values ∧ value ∈ values ∧ EntityTag entry.etag value := by
  constructor
  · rintro (⟨inm', values, value, hinm', hmatch⟩ | ⟨hnone, -⟩)
    · rw [hinm] at hinm'
      obtain rfl := Option.some.inj hinm'
      exact ⟨values, value, hmatch⟩
    · rw [hinm] at hnone
      cases hnone
  · rintro ⟨values, value, hmatch⟩
    exact .inl ⟨inm, values, value, hinm, hmatch⟩

/-- A lookup is answered with 304 only for a validator that matches exactly when the comparison does not match in
error. -/
theorem not_modified_only_if_matching (req : RequestInfo) (entry : CacheEntry) :
    (PersistentCache.checkNotModified req entry = true → ValidatorMatches req entry) ↔ ComparesExactly req entry := by
  cases hinm : req.headers.lookup (ascii "if-none-match") with
  | none =>
    -- only the date is compared
    constructor
    · intro _ inm hinm'
      rw [hinm] at hinm'
      cases hinm'
    · intro _ hcheck
      rw [PersistentCache.checkNotModified, hinm] at hcheck
      exact .inr ⟨hinm, (byDate_eq_true.mp hcheck).2⟩
  | some inm =>
    have hexact : ComparesExactly req entry ↔
        if entry.etag = [] then entry.lastModified = [] ∨
          req.headers.lookup (ascii "if-modified-since") ≠ some entry.lastModified
        else PersistentCache.trimQuotes (toLowerAscii inm) = PersistentCache.trimQuotes (toLowerAscii entry.etag) →
          inm = entry.etag ∧ ∃ value, EntityTag entry.etag value := by
      constructor
      · intro h
        exact h inm hinm
      · intro h inm' hinm'
        rw [hinm] at hinm'
        obtain rfl := Option.some.inj hinm'
        exact h
    rw [validatorMatches_iff hinm, hexact, PersistentCache.checkNotModified, hinm]
    by_cases hetag : entry.etag = []
    · -- an entry without a tag has none to match
      have hnone : ¬∃ values value, TagList inm values ∧ value ∈ values ∧ EntityTag entry.etag value := by
        rintro ⟨values, value, -, -, htag⟩
        rw [hetag] at htag
        cases htag
      simp only [hetag, ne_eq, not_true_eq_false, if_false, if_true, byDate_eq_true]
      rw [hetag] at hnone
      tauto
    · simp only [hetag, ne_eq, not_false_eq_true, if_true, if_false, decide_eq_true_eq]
      constructor
      · intro h hcompare
        obtain ⟨values, value, hlist, hvalue, htag⟩ := h hcompare
        exact ⟨eq_of_compares_equal hlist hvalue htag hcompare, value, htag⟩
      · intro h hcompare
        obtain ⟨rfl, value, htag⟩ := h hcompare
        have hlist : TagList ([] ++ entry.etag ++ []) [value] := .last (.tag rfl htag rfl)
        rw [List.nil_append, List.append_nil] at hlist
        exact ⟨[value], value, hlist, by simp, htag⟩

namespace LetterCase

/-- A request with a tag in capital letters. -/
def request : RequestInfo := { RequestInfo.empty with headers := [(ascii "if-none-match", ascii "\"A\"")] }

/-- An entry with the tag in small letters. -/
def entry : CacheEntry where
  statusCode := 200
  reasonPhrase := ascii "OK"
  lastModified := []
  etag := ascii "\"a\""
  storedAtUnixSec := 0
  ttlSec := 3600
  headers := []
  body := []
  varyHeaders := []

end LetterCase

/-- Two tags that differ in the case of a letter match. -/
theorem not_modified_only_if_matching_false :
    PersistentCache.checkNotModified LetterCase.request LetterCase.entry = true ∧
      ¬ValidatorMatches LetterCase.request LetterCase.entry := by
  have hcheck : PersistentCache.checkNotModified LetterCase.request LetterCase.entry = true := by decide +kernel
  refine ⟨hcheck, ?_⟩
  rintro (⟨inm, values, value, hinm, hlist, hvalue, htag⟩ | ⟨hnone, -⟩)
  · obtain rfl : ascii "\"A\"" = inm := Option.some.inj hinm
    exact absurd (eq_of_compares_equal hlist hvalue htag (by decide +kernel)) (by decide +kernel)
  · exact absurd hnone (by decide +kernel)

end HpServer
