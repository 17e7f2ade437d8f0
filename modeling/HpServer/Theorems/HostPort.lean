import HpServer.Lemmas.Numerals
import HpServer.Theorems.CacheKeys
import HpServer.Upstream

/-!
# Hosts and ports

`parse_host_port` reads back a host and a port that were written, with or without brackets. The port is what `strtoul`
makes of the text behind the colon, cut to sixteen bits; so it is the number that stands there only for some texts. A
port 0 is then replaced by 80, or by 443 for a tunnel; so what the proxy connects to, and what the cache key has, is
the number in the text only where that is a port.
-/

namespace HpServer

/-- Only white space. -/
def AllSpace (text : Bytes) : Prop := ∀ c ∈ text, isSpace c = true

theorem allSpace_iff {text : Bytes} : AllSpace text ↔ text.all isSpace = true := List.all_eq_true.symm

/-- A text that neither begins nor ends with white space. -/
def Trimmed (text : Bytes) : Prop :=
  (∀ c, text.head? = some c → isSpace c = false) ∧ ∀ c, text.getLast? = some c → isSpace c = false

/-- The text `parse_host_port` looks at. -/
def trim (text : Bytes) : Bytes := ((text.dropWhile isSpace).reverse.dropWhile isSpace).reverse

/-- Leading blanks are dropped. -/
theorem dropWhile_isSpace_append {blank text : Bytes} (hblank : AllSpace blank)
    (hhead : ∀ c, text.head? = some c → isSpace c = false) :
    (blank ++ text).dropWhile isSpace = text := by
  rw [List.dropWhile_append_of_pos hblank]
  cases text with
  | nil => rfl
  | cons c text => rw [List.dropWhile_cons_of_neg (by simp [hhead c rfl])]

/-- White space around a text is cut off. -/
theorem trim_surrounded {before text after : Bytes} (hbefore : AllSpace before) (hafter : AllSpace after)
    (htext : Trimmed text) (hne : text ≠ []) :
    trim (before ++ text ++ after) = text := by
  have hhead : ∀ c, (text ++ after).head? = some c → isSpace c = false := by
    intro c hc
    rw [List.head?_append_of_ne_nil _ hne] at hc
    exact htext.1 c hc
  have hlast : ∀ c, text.reverse.head? = some c → isSpace c = false := by
    intro c hc
    rw [List.head?_reverse] at hc
    exact htext.2 c hc
  have hblank : AllSpace after.reverse := by
    intro c hc
    exact hafter c (List.mem_reverse.mp hc)
  rw [trim, List.append_assoc, dropWhile_isSpace_append hbefore hhead, List.reverse_append,
    dropWhile_isSpace_append hblank hlast, List.reverse_reverse]

/-! ## The forms of a host with a port -/

section Forms

variable {s host port : Bytes}

/-- The text before the first `c`. -/
theorem takeWhile_ne_append {c : UInt8} (hhost : c ∉ host) (rest : Bytes) : (host ++ c :: rest).takeWhile
    (· ≠ c) = host := by
  have hpos : ∀ a ∈ host, decide (a ≠ c) = true := fun a ha => decide_eq_true fun h => hhost (h ▸ ha)
  rw [List.takeWhile_append_of_pos hpos, List.takeWhile_cons_of_neg (by simp), List.append_nil]

/-- What begins with the first `c`. -/
theorem dropWhile_ne_append {c : UInt8} (hhost : c ∉ host) (rest : Bytes) : (host ++ c :: rest).dropWhile
    (· ≠ c) = c :: rest := by
  have hpos : ∀ a ∈ host, decide (a ≠ c) = true := fun a ha => decide_eq_true fun h => hhost (h ▸ ha)
  rw [List.dropWhile_append_of_pos hpos, List.dropWhile_cons_of_neg (by simp)]

/-- An address in brackets, with a port. -/
theorem parseHostPort_bracketed (hs : trim s = 91 :: (host ++ 93 :: 58 :: port)) (hhost : 93 ∉ host) :
    parseHostPort s = (host, (strtoul port).toUInt16) := by
  rw [trim] at hs
  simp only [parseHostPort, hs, dropWhile_ne_append hhost, takeWhile_ne_append hhost]

/-- An address in brackets alone. -/
theorem parseHostPort_bracketed_alone (hs : trim s = 91 :: (host ++ [93])) (hhost : 93 ∉ host) :
    parseHostPort s = (host, 0) := by
  rw [trim] at hs
  simp only [parseHostPort, hs, dropWhile_ne_append hhost, takeWhile_ne_append hhost]

/-- Without a bracket at the front only the number of colons counts. -/
theorem parseHostPort_of_head_ne {t : Bytes} (hs : trim s = t) (hne : t ≠ []) (hhead : t.head? ≠ some 91) :
    parseHostPort s =
      if t.count 58 = 1 then (t.takeWhile (· ≠ 58), (strtoul ((t.dropWhile (· ≠ 58)).drop 1)).toUInt16) else (t, 0) := by
  rw [trim] at hs
  obtain ⟨c, rest, rfl⟩ := List.exists_cons_of_ne_nil hne
  have hc : c ≠ 91 := fun h => hhead (by rw [h]; rfl)
  unfold parseHostPort
  simp only [hs]
  split
  · next heq => cases heq
  · next heq => exact absurd (List.cons.inj heq).1 hc
  · rfl

/-- A name and a port. -/
theorem parseHostPort_colon (hs : trim s = host ++ 58 :: port) (hhost : 58 ∉ host) (hport : 58 ∉ port)
    (hhead : (host ++ 58 :: port).head? ≠ some 91) : parseHostPort s = (host, (strtoul port).toUInt16) := by
  have hcount : (host ++ 58 :: port).count 58 = 1 := by
    rw [List.count_append, List.count_cons_self, List.count_eq_zero_of_not_mem hhost, List.count_eq_zero_of_not_mem hport]
  rw [parseHostPort_of_head_ne hs (by simp) hhead, if_pos hcount, takeWhile_ne_append hhost, dropWhile_ne_append hhost]
  rfl

end Forms

/-! ## Reading back -/

/-- A port that is written is read back. -/
theorem strtoul_decimal_port (p : UInt16) : (strtoul (decimal p.toNat)).toUInt16 = p := by
  have hlt : p.toNat < UInt64.size := Nat.lt_trans p.toNat_lt (by decide)
  rw [strtoul_of_readDecimal (readDecimal_decimal p.toNat) hlt]
  exact UInt16.ofNat_toNat

theorem getLast_decimal_not_isSpace {n : Nat} {text : Bytes} (c : UInt8)
    (hc : (text ++ decimal n).getLast? = some c) : isSpace c = false := by
  rw [List.getLast?_append_of_ne_nil _ (decimal_ne_nil n)] at hc
  obtain ⟨h48, h57⟩ := mem_decimal (List.mem_of_getLast? hc)
  exact isDigit_not_isSpace (by simp [isDigit, h48, h57])

section Written

variable {before after : Bytes} (hbefore : AllSpace before) (hafter : AllSpace after)

include hbefore hafter

/-- A host that does not begin with white space or a bracket and has no colon, and a port. -/
theorem parseHostPort_host_port {host : Bytes} (hne : host ≠ []) (hcolon : 58 ∉ host)
    (hhead : ∀ c, host.head? = some c → isSpace c = false ∧ c ≠ 91) (p : UInt16) :
    parseHostPort (before ++ (host ++ 58 :: decimal p.toNat) ++ after) = (host, p) := by
  have hfirst : (host ++ 58 :: decimal p.toNat).head? = host.head? := List.head?_append_of_ne_nil _ hne
  have hbracket : (host ++ 58 :: decimal p.toNat).head? ≠ some 91 := by
    intro h
    exact (hhead 91 (hfirst ▸ h)).2 rfl
  have htrimmed : Trimmed (host ++ 58 :: decimal p.toNat) := by
    constructor
    · intro c hc
      exact (hhead c (hfirst ▸ hc)).1
    · intro c hc
      rw [List.append_cons] at hc
      exact getLast_decimal_not_isSpace c hc
  have hport : 58 ∉ decimal p.toNat := by
    intro h
    exact absurd (mem_decimal h).2 (by decide)
  rw [parseHostPort_colon (trim_surrounded hbefore hafter htrimmed (by simp)) hcolon hport hbracket, strtoul_decimal_port]

/-- A text that is not in brackets and does not have exactly one colon is a host. -/
theorem parseHostPort_whole {text : Bytes} (htrimmed : Trimmed text) (hne : text ≠ []) (hbracket : text.head? ≠ some 91)
    (hcount : text.count 58 ≠ 1) : parseHostPort (before ++ text ++ after) = (text, 0) := by
  rw [parseHostPort_of_head_ne (trim_surrounded hbefore hafter htrimmed hne) hne hbracket, if_neg hcount]

/-- A host in brackets and a port. -/
theorem parseHostPort_brackets_port {host : Bytes} (hclose : 93 ∉ host) (p : UInt16) :
    parseHostPort (before ++ 91 :: (host ++ 93 :: 58 :: decimal p.toNat) ++ after) = (host, p) := by
  have htrimmed : Trimmed (91 :: (host ++ 93 :: 58 :: decimal p.toNat)) := by
    constructor
    · intro c hc
      cases hc
      rfl
    · intro c hc
      rw [List.append_cons, List.append_cons, ← List.cons_append] at hc
      exact getLast_decimal_not_isSpace c hc
  rw [parseHostPort_bracketed (trim_surrounded hbefore hafter htrimmed (by simp)) hclose, strtoul_decimal_port]

/-- A host in brackets. -/
theorem parseHostPort_brackets {host : Bytes} (hclose : 93 ∉ host) :
    parseHostPort (before ++ 91 :: (host ++ [93]) ++ after) = (host, 0) := by
  have htrimmed : Trimmed (91 :: (host ++ [93])) := by
    constructor
    · intro c hc
      cases hc
      rfl
    · intro c hc
      rw [← List.cons_append, List.getLast?_append_of_ne_nil _ (by simp)] at hc
      cases hc
      rfl
  exact parseHostPort_bracketed_alone (trim_surrounded hbefore hafter htrimmed (by simp)) hclose

end Written

/-- `parse_host_port` reads back what was written, whatever white space is around it: a host without a colon and a
port, such a host alone, and the two in brackets for a host that may have colons. Two colons without brackets make a
host. -/
theorem parse_host_port_inverts_formatting {before after : Bytes} (hbefore : AllSpace before)
    (hafter : AllSpace after) (p : UInt16) :
    (∀ host, host ≠ [] → 58 ∉ host → (∀ c, host.head? = some c → isSpace c = false ∧ c ≠ 91) →
      parseHostPort (before ++ (host ++ 58 :: decimal p.toNat) ++ after) = (host, p) ∧
      ((∀ c, host.getLast? = some c → isSpace c = false) → parseHostPort (before ++ host ++ after) = (host, 0))) ∧
    (∀ host, 93 ∉ host →
      parseHostPort (before ++ 91 :: (host ++ 93 :: 58 :: decimal p.toNat) ++ after) = (host, p) ∧
      parseHostPort (before ++ 91 :: (host ++ [93]) ++ after) = (host, 0)) ∧
    ∀ text, Trimmed text → 2 ≤ text.count 58 → text.head? ≠ some 91 →
      parseHostPort (before ++ text ++ after) = (text, 0) := by
  refine ⟨?_, ?_, ?_⟩
  · intro host hne hcolon hhead
    refine ⟨parseHostPort_host_port hbefore hafter hne hcolon hhead p, ?_⟩
    intro hlast
    have htrimmed : Trimmed host := ⟨fun c hc => (hhead c hc).1, hlast⟩
    have hcount : host.count 58 ≠ 1 := by simp [List.count_eq_zero_of_not_mem hcolon]
    exact parseHostPort_whole hbefore hafter htrimmed hne (fun h => (hhead 91 h).2 rfl) hcount
  · intro host hclose
    exact ⟨parseHostPort_brackets_port hbefore hafter hclose p, parseHostPort_brackets hbefore hafter hclose⟩
  · intro text htrimmed hcount hbracket
    have hne : text ≠ [] := by
      rintro rfl
      simp at hcount
    exact parseHostPort_whole hbefore hafter htrimmed hne hbracket (by omega)

/-- With white space around them, `[::1]:8080` and `h:8080`. -/
theorem parse_host_port_of_written :
    parseHostPort (ascii "  [::1]:8080 ") = (ascii "::1", 8080) ∧
      parseHostPort (ascii "  h:8080 ") = (ascii "h", 8080) := by
  have hbefore : AllSpace (ascii "  ") := allSpace_iff.mpr (by decide)
  have hafter : AllSpace (ascii " ") := allSpace_iff.mpr (by decide)
  have hhead : ∀ c, (ascii "h").head? = some c → isSpace c = false ∧ c ≠ 91 := by
    intro c hc
    cases hc
    decide
  obtain ⟨hcolon, hbracketed, -⟩ := parse_host_port_inverts_formatting hbefore hafter 8080
  exact ⟨(hbracketed (ascii "::1") (by decide)).1, (hcolon (ascii "h") (by decide) (by decide) hhead).1⟩

/-! ## Other ports -/

/-- `port` is the text behind the colon of the port in `s`: behind a host in brackets, or behind the only colon. -/
inductive PortText (s port : Bytes) : Prop
  | bracketed (host : Bytes) (hs : trim s = 91 :: (host ++ 93 :: 58 :: port)) (hhost : 93 ∉ host)
  | colon (host : Bytes) (hs : trim s = host ++ 58 :: port) (hhost : 58 ∉ host) (hport : 58 ∉ port)
      (hhead : (host ++ 58 :: port).head? ≠ some 91)

/-- Either way the port is what `strtoul` reads, cut to sixteen bits. -/
theorem PortText.port_eq {s port : Bytes} (h : PortText s port) : (parseHostPort s).2 = (strtoul port).toUInt16 := by
  cases h with
  | bracketed host hs hhost => rw [parseHostPort_bracketed hs hhost]
  | colon host hs hhost hport hhead => rw [parseHostPort_colon hs hhost hport hhead]

/-- The number `strtoul` returns is a multiple of 2^16 where the number that is written is one, and fits; the sign
does not matter. -/
theorem dvd_strtoul_iff (text : Bytes) :
    65536 ∣ strtoul text ↔ leadingNumber text < UInt64.size ∧ 65536 ∣ leadingNumber text := by
  have hsize : UInt64.size = 18446744073709551616 := rfl
  rw [strtoul_eq, hsize]
  split
  · omega
  · split <;> omega

/-- The cast to 16 bits makes zero of the multiples of 65536. -/
theorem toUInt16_eq_zero_iff (n : Nat) : n.toUInt16 = 0 ↔ 65536 ∣ n := by
  rw [← UInt16.toNat_inj, Nat.toUInt16_eq, UInt16.toNat_ofNat']
  exact Nat.dvd_iff_mod_eq_zero.symm

/-- A port of `parse_host_port` that is not zero is the number that stands behind the colon, and only that, exactly
where a numeral below 2^16 stands there or the number it begins with, behind white space and a sign, is a multiple of
2^16 that fits into 64 bits, or there is none. -/
theorem PortText.parsed_port_iff {s text : Bytes} (h : PortText s text) :
    ((parseHostPort s).2 ≠ 0 → readDecimal text = some (parseHostPort s).2.toNat) ↔
      (∃ n, readDecimal text = some n ∧ n < 65536) ∨ (leadingNumber text < UInt64.size ∧ 65536 ∣ leadingNumber text) := by
  rw [h.port_eq, ← dvd_strtoul_iff, ← toUInt16_eq_zero_iff]
  constructor
  · intro hexact
    by_cases hzero : (strtoul text).toUInt16 = 0
    · exact .inr hzero
    · exact .inl ⟨_, hexact hzero, UInt16.toNat_lt _⟩
  · rintro (⟨n, hread, hn⟩ | hzero) hne
    · have hlt : n < UInt64.size := Nat.lt_trans hn (by decide)
      rw [strtoul_of_readDecimal hread hlt, hread, Nat.toUInt16_eq, UInt16.toNat_ofNat_of_lt' hn]
    · exact absurd hzero hne

/-! ## The port of a request -/

/-- The text that a request gives its host and port in: the url for a tunnel, the `host` header otherwise. -/
def RequestInfo.hostPort (r : RequestInfo) : Option Bytes :=
  if r.isConnect then some r.url else r.headers.lookup (ascii "host")

/-- The text is a numeral, digits only, of a port. -/
def PortNumeral (text : Bytes) : Prop := ∃ n, readDecimal text = some n ∧ 0 < n ∧ n < 65536

/-- The proxy connects to the port of `parse_host_port`, and to the default one if that is 0. -/
theorem upstreamPort_postProcessHeaders {r : RequestInfo} {s : Bytes} (hs : r.hostPort = some s) :
    r.postProcessHeaders.upstreamPort =
      if (parseHostPort s).2 = 0 then (if r.isConnect then 443 else 80) else (parseHostPort s).2 := by
  rw [RequestInfo.hostPort] at hs
  unfold RequestInfo.postProcessHeaders
  cases hconnect : r.isConnect with
  | true =>
    obtain rfl : r.url = s := by simpa [hconnect] using hs
    split <;> simp [RequestInfo.upstreamPort, hconnect]
  | false =>
    have hhost : r.headers.lookup (ascii "host") = some s := by simpa [hconnect] using hs
    split <;> simp [RequestInfo.upstreamPort, hconnect, hhost]

/-- After `post_process_headers` the port that is connected to is not zero. -/
theorem upstreamPort_ne_zero {r : RequestInfo} {s : Bytes} (hs : r.hostPort = some s) :
    r.postProcessHeaders.upstreamPort ≠ 0 := by
  rw [upstreamPort_postProcessHeaders hs]
  split
  · split <;> decide
  · assumption

/-- The port the proxy connects to is the number behind the colon exactly where a numeral of a port stands there. -/
theorem PortText.upstreamPort_iff {s text : Bytes} (h : PortText s text) {r : RequestInfo} (hs : r.hostPort = some s) :
    readDecimal text = some r.postProcessHeaders.upstreamPort.toNat ↔ PortNumeral text := by
  constructor
  · intro hread
    have hpos : 0 < r.postProcessHeaders.upstreamPort.toNat :=
      Nat.pos_of_ne_zero fun hzero => upstreamPort_ne_zero hs (UInt16.toNat_inj.mp hzero)
    exact ⟨_, hread, hpos, UInt16.toNat_lt _⟩
  · rintro ⟨n, hread, hpos, hn⟩
    have hport : (parseHostPort s).2.toNat = n := by
      rw [h.port_eq, strtoul_of_readDecimal hread (Nat.lt_trans hn (by decide)), Nat.toUInt16_eq,
        UInt16.toNat_ofNat_of_lt' hn]
    have hne : (parseHostPort s).2 ≠ 0 := by
      intro hzero
      rw [hzero] at hport
      exact absurd hport (Nat.ne_of_lt hpos)
    rw [upstreamPort_postProcessHeaders hs, if_neg hne, hport, hread]

/-- The key has the port that the proxy connects to, and no other. -/
theorem HttpCache.buildCacheKey_port_iff {r : RequestInfo} (h : isCacheableRequest r = true) (p : UInt16) :
    buildCacheKey r = buildCacheKey { r with port := p } ↔ r.upstreamPort = p := by
  have hconnect : r.isConnect = false := by simpa using ((Bool.and_eq_true _ _).mp h).1
  have hport : r.upstreamPort = r.port := by simp [RequestInfo.upstreamPort, hconnect]
  rw [hport]
  constructor
  · exact buildCacheKey_port_inj
  · rintro rfl
    rfl

/-- `parse_host_port` gives no port but 0 and the number that stands behind the colon exactly where a numeral below
2^16 stands there, or the number it begins with, behind white space and a sign, is a multiple of 2^16 that fits into
64 bits, or there is none. A request that is given its port this way is sent to the port with that number exactly
where a numeral from 1 to 65535 stands there; so it is with the ports that its cache key can be one of. -/
theorem port_not_aliased_iff {s text : Bytes} (h : PortText s text) :
    (((parseHostPort s).2 ≠ 0 → readDecimal text = some (parseHostPort s).2.toNat) ↔
        (∃ n, readDecimal text = some n ∧ n < 65536) ∨ (leadingNumber text < UInt64.size ∧ 65536 ∣ leadingNumber text)) ∧
      ∀ r : RequestInfo, r.hostPort = some s →
        (readDecimal text = some r.postProcessHeaders.upstreamPort.toNat ↔ PortNumeral text) ∧
        (HttpCache.isCacheableRequest r.postProcessHeaders = true →
          ((∀ p : UInt16, HttpCache.buildCacheKey r.postProcessHeaders =
              HttpCache.buildCacheKey { r.postProcessHeaders with port := p } → readDecimal text = some p.toNat) ↔
            PortNumeral text)) := by
  refine ⟨h.parsed_port_iff, ?_⟩
  intro r hs
  refine ⟨h.upstreamPort_iff hs, ?_⟩
  intro hcacheable
  simp only [HttpCache.buildCacheKey_port_iff hcacheable, forall_eq', h.upstreamPort_iff hs]

/-- A `GET` request for `/a` of a host. -/
def RequestInfo.getFrom (hostPort : Bytes) : RequestInfo :=
  { RequestInfo.empty with method := ascii "GET", url := ascii "/a", headers := [(ascii "host", hostPort)] }

/-- A request for `h:8080` is sent to port 8080, and its key is that of no other port. -/
theorem port_of_numeral :
    readDecimal (ascii "8080") = some (parseHostPort (ascii "h:8080")).2.toNat ∧
      readDecimal (ascii "8080") = some (RequestInfo.getFrom (ascii "h:8080")).postProcessHeaders.upstreamPort.toNat ∧
      ∀ p : UInt16, HttpCache.buildCacheKey (RequestInfo.getFrom (ascii "h:8080")).postProcessHeaders =
          HttpCache.buildCacheKey { (RequestInfo.getFrom (ascii "h:8080")).postProcessHeaders with port := p } →
        readDecimal (ascii "8080") = some p.toNat := by
  have htext : PortText (ascii "h:8080") (ascii "8080") :=
    .colon (ascii "h") (by decide) (by decide) (by decide) (by decide)
  have hnumeral : PortNumeral (ascii "8080") := ⟨8080, by decide, by decide, by decide⟩
  obtain ⟨hparsed, hrequest⟩ := port_not_aliased_iff htext
  obtain ⟨hconnects, hkey⟩ := hrequest (.getFrom (ascii "h:8080")) (by decide)
  exact ⟨hparsed.mpr (.inl ⟨8080, by decide, by decide⟩) (by decide), hconnects.mpr hnumeral,
    (hkey (by decide)).mpr hnumeral⟩

/-- The text `65616` stands for no port; the port is 80, a request is sent there, and it has the key of a request for
`h:80`. -/
theorem port_aliased :
    PortText (ascii "h:65616") (ascii "65616") ∧ (parseHostPort (ascii "h:65616")).2 = 80 ∧
      ¬ ((parseHostPort (ascii "h:65616")).2 ≠ 0 →
        readDecimal (ascii "65616") = some (parseHostPort (ascii "h:65616")).2.toNat) ∧
      (RequestInfo.getFrom (ascii "h:65616")).postProcessHeaders.upstreamPort = 80 ∧
      HttpCache.buildCacheKey (RequestInfo.getFrom (ascii "h:65616")).postProcessHeaders =
        HttpCache.buildCacheKey (RequestInfo.getFrom (ascii "h:80")).postProcessHeaders := by
  refine ⟨.colon (ascii "h") ?_ ?_ ?_ ?_, ?_, ?_, ?_, ?_⟩ <;> decide

end HpServer
