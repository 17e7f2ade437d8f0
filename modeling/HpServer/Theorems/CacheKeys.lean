import HpServer.HttpCache
import HpServer.HttpRequestParser

/-!
# What a cache key tells

`build_cache_key` writes the host, the port, the method, the url and the `accept-encoding` value one after another,
with nothing in them escaped. A key is read back up to where a `|` stands: what one request has in its url, another
may have in its `accept-encoding` value, or a third in its host.
-/

namespace HpServer
namespace HttpCache

open Llhttp

/-- The `accept-encoding` value of a request. -/
def acceptEncoding (req : RequestInfo) : Option Bytes := req.headers.lookup (ascii "accept-encoding")

/-- The requests ask for the same thing. -/
def SameTarget (req₁ req₂ : RequestInfo) : Prop :=
  req₁.host = req₂.host ∧ req₁.port = req₂.port ∧ req₁.url = req₂.url ∧ acceptEncoding req₁ = acceptEncoding req₂

/-- The part of the key of a `GET` request that stands before the url. -/
def keyHead (req : RequestInfo) : Bytes := req.host ++ 58 :: decimal req.port.toNat ++ ascii "|GET|"

/-- The part of the key that follows the url. -/
def encodingPart : Option Bytes → Bytes
  | none => []
  | some value => 124 :: value

/-- The part of the key from the url on. -/
def keyTail (req : RequestInfo) : Bytes := req.url ++ encodingPart (acceptEncoding req)

/-- The url of a request without `accept-encoding` ends as the other's `accept-encoding` value does, behind a `|`. -/
def UrlHoldsEncoding (req₁ req₂ : RequestInfo) : Prop :=
  acceptEncoding req₁ = none ∧ ∃ value, acceptEncoding req₂ = some value ∧ req₁.url = req₂.url ++ 124 :: value

/-- A part of one request's `accept-encoding` value, up to a `|`, is the end of the other's url. -/
def EncodingHoldsUrl (req₁ req₂ : RequestInfo) : Prop :=
  ∃ text value, acceptEncoding req₁ = some (text ++ 124 :: value) ∧ acceptEncoding req₂ = some value ∧
    req₂.url = req₁.url ++ 124 :: text

/-- The host of one request begins with the whole head of the other's key, and the rest of that key is the rest of the
host and what follows. -/
def HostHoldsKeyHead (req₁ req₂ : RequestInfo) : Prop :=
  ∃ text, req₂.host = keyHead req₁ ++ text ∧
    keyTail req₁ = text ++ 58 :: decimal req₂.port.toNat ++ ascii "|GET|" ++ keyTail req₂

/-- A `|` of the first request is read as another part of the key in the second. -/
def Ambiguous (req₁ req₂ : RequestInfo) : Prop :=
  (req₁.host = req₂.host ∧ req₁.port = req₂.port ∧ (UrlHoldsEncoding req₁ req₂ ∨ EncodingHoldsUrl req₁ req₂)) ∨
    HostHoldsKeyHead req₁ req₂

theorem buildCacheKey_eq {req : RequestInfo} (h : isCacheableRequest req = true) :
    buildCacheKey req = keyHead req ++ keyTail req := by
  obtain ⟨-, hget⟩ := (Bool.and_eq_true _ _).mp h
  rw [decide_eq_true_eq] at hget
  have hbars : ascii "|GET|" = ascii "|" ++ ascii "GET" ++ ascii "|" := by decide
  have hcolon : ascii ":" = [58] := by decide
  have hbar : ascii "|" = [124] := by decide
  rw [buildCacheKey, keyTail, acceptEncoding, keyHead, hget, hbars, hcolon, hbar]
  cases req.headers.lookup (ascii "accept-encoding") <;>
    simp only [encodingPart, List.append_assoc, List.cons_append, List.nil_append]

theorem decimal_inj {m n : Nat} (h : decimal m = decimal n) : m = n := by
  have hread := congrArg readDecimal h
  rw [readDecimal_decimal, readDecimal_decimal] at hread
  exact Option.some.inj hread

/-- A colon with digits behind it is found from the end. -/
theorem host_port_inj {host₁ host₂ : Bytes} {m n : Nat} (h : host₁ ++ 58 :: decimal m = host₂ ++ 58 :: decimal n) :
    host₁ = host₂ ∧ m = n := by
  have hcolon : ∀ (k : Nat) (text : Bytes) (l : Nat), decimal k ≠ text ++ 58 :: decimal l := by
    intro k text l heq
    obtain ⟨-, hle⟩ := mem_decimal (n := k) (b := 58) (by rw [heq]; simp)
    exact absurd hle (by decide)
  rcases List.append_eq_append_iff.mp h with ⟨text, hhost, hport⟩ | ⟨text, hhost, hport⟩
  · cases text with
    | nil =>
      rw [List.append_nil] at hhost
      exact ⟨hhost.symm, decimal_inj (List.cons.inj hport).2⟩
    | cons b text => exact absurd (List.cons.inj hport).2 (hcolon _ _ _)
  · cases text with
    | nil =>
      rw [List.append_nil] at hhost
      exact ⟨hhost, (decimal_inj (List.cons.inj hport).2).symm⟩
    | cons b text => exact absurd (List.cons.inj hport).2 (hcolon _ _ _)

theorem keyHead_inj {req₁ req₂ : RequestInfo} (h : keyHead req₁ = keyHead req₂) :
    req₁.host = req₂.host ∧ req₁.port = req₂.port := by
  obtain ⟨hhost, hport⟩ := host_port_inj (List.append_cancel_right h)
  exact ⟨hhost, UInt16.toNat_inj.mp hport⟩

/-- The key of a request is that of no other port. -/
theorem buildCacheKey_port_inj {req : RequestInfo} {port : UInt16}
    (h : buildCacheKey req = buildCacheKey { req with port := port }) :
    req.port = port := by
  rw [buildCacheKey, buildCacheKey] at h
  simp only [List.append_assoc] at h
  have hrest := List.append_cancel_left (List.append_cancel_left h)
  exact UInt16.toNat_inj.mp (decimal_inj (List.append_cancel_right hrest))

/-- The last byte of a part of a key's head behind the host is a `|` in two places only. -/
theorem part_of_head {n : Nat} {part rest : Bytes} (h : 58 :: decimal n ++ ascii "|GET|" = part ++ rest)
    (hrest : rest ≠ []) (hlast : part.getLast? = some 124) : part = 58 :: decimal n ++ [124] := by
  have hdigits : ∀ text : Bytes, (∀ b ∈ text, b ∈ 58 :: decimal n) → text.getLast? ≠ some 124 := by
    intro text hsub hbar
    rcases List.mem_cons.mp (hsub 124 (List.mem_of_getLast? hbar)) with hb | hb
    · exact absurd hb (by decide)
    · exact absurd (mem_decimal hb).2 (by decide)
  rcases List.append_eq_append_iff.mp h with ⟨text, hpart, htext⟩ | ⟨text, hpart, -⟩
  · rw [hpart]
    have hget : ascii "|GET|" = [124, 71, 69, 84, 124] := by decide
    rw [hget] at htext
    -- what is in the part of `|GET|`: nothing, or one to four of its bytes
    match text, htext with
    | [], _ =>
      rw [List.append_nil] at hpart
      exact absurd hlast (hdigits part fun b hb => hpart ▸ hb)
    | [a], heq => rw [← (List.cons.inj heq).1]
    | [a, b], heq | [a, b, c], heq | [a, b, c, d], heq =>
      rw [hpart, List.getLast?_append] at hlast
      simp_all
    | a :: b :: c :: d :: e :: text, heq =>
      simp at heq
      exact absurd heq.2.2.2.2.2.2 hrest
  · exact absurd hlast (hdigits part fun b hb => by rw [hpart]; exact List.mem_append_left _ hb)

/-- The head of a key that begins another key is the head of that key, or stands in its host. -/
theorem keyHead_prefix {req₁ req₂ : RequestInfo} {rest : Bytes} (h : keyHead req₂ = keyHead req₁ ++ rest)
    (hrest : rest ≠ []) :
    ∃ text, req₂.host = keyHead req₁ ++ text ∧ rest = text ++ 58 :: decimal req₂.port.toNat ++ ascii "|GET|" := by
  have hget : ascii "|GET|" = [124, 71, 69, 84] ++ [124] := by decide
  rw [keyHead, List.append_assoc] at h
  rcases List.append_eq_append_iff.mp h with ⟨part, hhead, hpart⟩ | ⟨text, hhost, htext⟩
  · rcases List.eq_nil_or_concat part with rfl | ⟨part, b, rfl⟩
    · exact ⟨[], by rw [List.append_nil, hhead, List.append_nil], by rw [List.nil_append]; exact hpart.symm⟩
    · exfalso
      -- the head ends with a `|`, so it ends at the `|` behind the port; but a digit stands before that one
      have hb : b = 124 := by
        rw [keyHead, hget, List.concat_eq_append, ← List.append_assoc, ← List.append_assoc] at hhead
        exact (List.cons.inj (List.append_inj' hhead rfl).2).1.symm
      have hpart' := part_of_head hpart hrest (by simp [hb])
      rw [keyHead, hget, hpart', ← List.append_assoc, ← List.append_assoc] at hhead
      have hcut := congrArg List.getLast? (List.append_cancel_right hhead)
      obtain ⟨digits, d, hdigits⟩ := (List.eq_nil_or_concat (decimal req₂.port.toNat)).resolve_left (decimal_ne_nil _)
      rw [hdigits] at hcut
      have hd : d = 84 := by simpa [List.getLast?_cons] using hcut.symm
      have hmem : d ∈ decimal req₂.port.toNat := by rw [hdigits]; simp
      exact absurd (mem_decimal hmem).2 (by rw [hd]; decide)
  · exact ⟨text, hhost, by rw [htext, List.append_assoc]⟩

/-- Where the urls and `accept-encoding` values give the same text but are not the same. -/
theorem keyTail_eq {req₁ req₂ : RequestInfo} (h : keyTail req₁ = keyTail req₂) :
    (req₁.url = req₂.url ∧ acceptEncoding req₁ = acceptEncoding req₂) ∨ UrlHoldsEncoding req₁ req₂ ∨
      UrlHoldsEncoding req₂ req₁ ∨ EncodingHoldsUrl req₁ req₂ ∨ EncodingHoldsUrl req₂ req₁ := by
  rw [keyTail, keyTail] at h
  cases h₁ : acceptEncoding req₁ with
  | none =>
    cases h₂ : acceptEncoding req₂ with
    | none => simp_all [encodingPart]
    | some value₂ =>
      rw [h₁, h₂, encodingPart, encodingPart, List.append_nil] at h
      exact .inr (.inl ⟨h₁, value₂, h₂, h⟩)
  | some value₁ =>
    cases h₂ : acceptEncoding req₂ with
    | none =>
      rw [h₁, h₂, encodingPart, encodingPart, List.append_nil] at h
      exact .inr (.inr (.inl ⟨h₂, value₁, h₁, h.symm⟩))
    | some value₂ =>
      rw [h₁, h₂, encodingPart, encodingPart] at h
      rcases List.append_eq_append_iff.mp h with ⟨text, hurl, hvalue⟩ | ⟨text, hurl, hvalue⟩
      · cases text with
        | nil => simp_all
        | cons b text =>
          obtain ⟨rfl, rfl⟩ := List.cons.inj hvalue
          exact .inr (.inr (.inr (.inl ⟨text, value₂, h₁, h₂, hurl⟩)))
      · cases text with
        | nil => simp_all
        | cons b text =>
          obtain ⟨rfl, rfl⟩ := List.cons.inj hvalue
          exact .inr (.inr (.inr (.inr ⟨text, value₁, h₂, h₁, hurl⟩)))

theorem Ambiguous.key_eq {req₁ req₂ : RequestInfo} (h : Ambiguous req₁ req₂) :
    keyHead req₁ ++ keyTail req₁ = keyHead req₂ ++ keyTail req₂ := by
  rcases h with ⟨hhost, hport, htail⟩ | ⟨text, hhost, htail⟩
  · have hhead : keyHead req₁ = keyHead req₂ := by rw [keyHead, keyHead, hhost, hport]
    rw [hhead, keyTail, keyTail]
    rcases htail with ⟨h₁, value, h₂, hurl⟩ | ⟨text, value, h₁, h₂, hurl⟩
    · rw [h₁, h₂, hurl, encodingPart, encodingPart, List.append_nil]
    · rw [h₁, h₂, hurl, encodingPart, encodingPart, List.append_assoc, List.cons_append]
  · have hhead : keyHead req₂ = keyHead req₁ ++ text ++ 58 :: decimal req₂.port.toNat ++ ascii "|GET|" := by
      rw [keyHead, hhost]
    rw [hhead, htail]
    simp only [List.append_assoc]

theorem Ambiguous.not_sameTarget {req₁ req₂ : RequestInfo} (h : Ambiguous req₁ req₂) : ¬SameTarget req₁ req₂ := by
  rintro ⟨hhost, -, hurl, henc⟩
  rcases h with ⟨-, -, ⟨h₁, value, h₂, -⟩ | ⟨text, value, -, -, hurl'⟩⟩ | ⟨text, hhost', -⟩
  · rw [h₁, h₂] at henc
    cases henc
  · rw [hurl] at hurl'
    simp at hurl'
  · -- the second host is longer than the first
    have hlen := congrArg List.length hhost'
    rw [← hhost, keyHead] at hlen
    simp only [List.length_append, List.length_cons] at hlen
    omega

theorem SameTarget.symm {req₁ req₂ : RequestInfo} (h : SameTarget req₁ req₂) : SameTarget req₂ req₁ :=
  ⟨h.1.symm, h.2.1.symm, h.2.2.1.symm, h.2.2.2.symm⟩

/-- Two keys that begin alike, the first with the shorter head, are the same only for the same target or an ambiguous
text. -/
theorem sameTarget_or_ambiguous {req₁ req₂ : RequestInfo} {rest : Bytes} (hhead : keyHead req₂ = keyHead req₁ ++ rest)
    (htail : keyTail req₁ = rest ++ keyTail req₂) : SameTarget req₁ req₂ ∨ Ambiguous req₁ req₂ ∨ Ambiguous req₂ req₁ := by
  by_cases hrest : rest = []
  · subst hrest
    rw [List.append_nil] at hhead
    obtain ⟨hhost, hport⟩ := keyHead_inj hhead.symm
    rcases keyTail_eq htail with ⟨hurl, henc⟩ | h | h | h | h
    · exact .inl ⟨hhost, hport, hurl, henc⟩
    · exact .inr (.inl (.inl ⟨hhost, hport, .inl h⟩))
    · exact .inr (.inr (.inl ⟨hhost.symm, hport.symm, .inl h⟩))
    · exact .inr (.inl (.inl ⟨hhost, hport, .inr h⟩))
    · exact .inr (.inr (.inl ⟨hhost.symm, hport.symm, .inr h⟩))
  · obtain ⟨text, hhost, htext⟩ := keyHead_prefix hhead hrest
    exact .inr (.inl (.inr ⟨text, hhost, by rw [htail, htext]⟩))

/-- Two cacheable requests have the same key exactly if they ask for the same thing, unless a `|` in one of them makes
their keys ambiguous. -/
theorem cache_key_identifies_request (req₁ req₂ : RequestInfo) (h₁ : isCacheableRequest req₁ = true)
    (h₂ : isCacheableRequest req₂ = true) :
    (buildCacheKey req₁ = buildCacheKey req₂ ↔ SameTarget req₁ req₂) ↔ ¬Ambiguous req₁ req₂ ∧ ¬Ambiguous req₂ req₁ := by
  rw [buildCacheKey_eq h₁, buildCacheKey_eq h₂]
  constructor
  · intro hiff
    exact ⟨fun h => h.not_sameTarget (hiff.mp h.key_eq), fun h => h.not_sameTarget (hiff.mp h.key_eq.symm).symm⟩
  · rintro ⟨hamb₁, hamb₂⟩
    constructor
    · intro hkey
      have hor : SameTarget req₁ req₂ ∨ Ambiguous req₁ req₂ ∨ Ambiguous req₂ req₁ := by
        rcases List.append_eq_append_iff.mp hkey with ⟨rest, hhead, htail⟩ | ⟨rest, hhead, htail⟩
        · exact sameTarget_or_ambiguous hhead htail
        · rcases sameTarget_or_ambiguous hhead htail with h | h | h
          · exact .inl h.symm
          · exact .inr (.inr h)
          · exact .inr (.inl h)
      exact hor.resolve_right (not_or.mpr ⟨hamb₁, hamb₂⟩)
    · rintro ⟨hhost, hport, hurl, henc⟩
      rw [keyHead, keyHead, keyTail, keyTail, hhost, hport, hurl, henc]

/-! ## Two requests with one key -/

/-- A request for `/a|gzip` that says nothing of encodings. -/
def barRequest : Bytes := ascii "GET /a|gzip HTTP/1.1\r\nHost: h\r\n\r\n"

/-- A request for `/a`, compressed. -/
def gzipRequest : Bytes := ascii "GET /a HTTP/1.1\r\nHost: h\r\nAccept-Encoding: gzip\r\n\r\n"

/-- A request for `/a` that says nothing of encodings. -/
def plainRequest : Bytes := ascii "GET /a HTTP/1.1\r\nHost: h\r\n\r\n"

/-- How llhttp reads the three. -/
def barLexer : Lexer Tables :=
  tableLexer
    [(barRequest, [(.url, ascii "/a|gzip"), (.version, ascii "1.1"), (.headerField, ascii "Host"),
      (.headerValue, ascii "h")],
        { method := ascii "GET" }),
      (gzipRequest, [(.url, ascii "/a"), (.version, ascii "1.1"), (.headerField, ascii "Host"), (.headerValue, ascii "h"),
        (.headerField, ascii "Accept-Encoding"), (.headerValue, ascii "gzip")], { method := ascii "GET" }),
      (plainRequest, [(.url, ascii "/a"), (.version, ascii "1.1"), (.headerField, ascii "Host"),
        (.headerValue, ascii "h")], { method := ascii "GET" })]
    []

/-- What the request parser makes of a message. -/
def parsed (message : Bytes) : HttpRequestParser Tables := (({} : HttpRequestParser Tables).parse barLexer message).1

/-- The two requests are parsed as they stand, both can be cached, and they have one key for two urls. -/
theorem cache_key_identifies_request_false :
    (parsed barRequest).isMessageComplete = true ∧ (parsed gzipRequest).isMessageComplete = true ∧
      isCacheableRequest (parsed barRequest).request = true ∧ isCacheableRequest (parsed gzipRequest).request = true ∧
      ¬(buildCacheKey (parsed barRequest).request = buildCacheKey (parsed gzipRequest).request ↔
        SameTarget (parsed barRequest).request (parsed gzipRequest).request) := by
  have hkey : buildCacheKey (parsed barRequest).request = buildCacheKey (parsed gzipRequest).request := by decide +kernel
  have hurl : (parsed barRequest).request.url ≠ (parsed gzipRequest).request.url := by decide +kernel
  refine ⟨by decide +kernel, by decide +kernel, by decide +kernel, by decide +kernel, fun hiff => ?_⟩
  exact hurl (hiff.mp hkey).2.2.1

/-- Requests for `/a` with and without the encoding are not ambiguous, so their keys tell them apart. -/
theorem cache_key_identifies_request_encodings :
    isCacheableRequest (parsed plainRequest).request = true ∧ isCacheableRequest (parsed gzipRequest).request = true ∧
      ¬Ambiguous (parsed plainRequest).request (parsed gzipRequest).request ∧
      ¬Ambiguous (parsed gzipRequest).request (parsed plainRequest).request ∧
      (buildCacheKey (parsed plainRequest).request = buildCacheKey (parsed gzipRequest).request ↔
        SameTarget (parsed plainRequest).request (parsed gzipRequest).request) := by
  have hplain : isCacheableRequest (parsed plainRequest).request = true := by decide +kernel
  have hgzip : isCacheableRequest (parsed gzipRequest).request = true := by decide +kernel
  have hne : buildCacheKey (parsed plainRequest).request ≠ buildCacheKey (parsed gzipRequest).request := by decide +kernel
  rw [buildCacheKey_eq hplain, buildCacheKey_eq hgzip] at hne
  have hamb₁ : ¬Ambiguous (parsed plainRequest).request (parsed gzipRequest).request := fun h => hne h.key_eq
  have hamb₂ : ¬Ambiguous (parsed gzipRequest).request (parsed plainRequest).request := fun h => hne h.key_eq.symm
  exact ⟨hplain, hgzip, hamb₁, hamb₂, (cache_key_identifies_request _ _ hplain hgzip).mpr ⟨hamb₁, hamb₂⟩⟩

end HttpCache
end HpServer
