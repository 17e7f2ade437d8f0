import HpServer.Lemmas.HttpCacheSpec
import HpServer.Lemmas.MessageText
import HpServer.Lemmas.ParsedResponse

/-!
# A stored response is read back

A response that the persistent cache stores is parsed, taken apart and serialised, and put together again by a lookup.
What comes out is another text, but the same response: the status and the reason, the end-to-end headers and the body,
framed by its length, however the upstream server framed it.
-/

namespace HpServer

open Llhttp MessageBuilder

namespace ResponseInfo

/-- The status line of a response from the cache. -/
def sentStatusLine (r : ResponseInfo) : Bytes := ascii "HTTP/1.1 " ++ decimal r.statusCode ++ ascii " " ++ r.reasonPhrase

/-- The `Content-Length` field that is added when the map has none. -/
def addedLength (r : ResponseInfo) : Headers :=
  if r.headers.any fun f => f.1 = ascii "content-length" then [] else [(ascii "Content-Length", decimal r.body.length)]

end ResponseInfo

namespace PersistentCache

variable {τ ρ : Type} (env : CacheEnv τ ρ)

/-! ## Calls in between -/

/-- A call of `store`, with what the clock shows and whether the `Put` succeeds. -/
structure StoreCall where
  now : Int
  key : Bytes
  response : Bytes
  putOk : Bool

/-- The database after some calls of `store`. A lookup does not change it. -/
def storeAll (db : Database ρ) (calls : List StoreCall) : Database ρ :=
  calls.foldl (fun db c => (store env db c.now c.key c.response c.putOk).1) db

/-- A `store` leaves the other keys. -/
theorem store_other {db : Database ρ} {now : Int} {key response : Bytes} {putOk : Bool} {k : Bytes} (hk : k ≠ key) :
    (store env db now key response putOk).1 k = db k := by
  cases hok : (store env db now key response putOk).2 with
  | false => rw [store_false env hok]
  | true =>
    obtain ⟨-, raw, -, -, hput⟩ := store_true env hok
    rw [hput, Function.update_of_ne hk]

/-- Stores under other keys leave the entry of a key alone. -/
theorem entryAt_storeAll {db : Database ρ} {key : Bytes} {calls : List StoreCall} (hcalls : ∀ c ∈ calls, c.key ≠ key) :
    entryAt env (storeAll env db calls) key = entryAt env db key := by
  induction calls generalizing db with
  | nil => rfl
  | cons c calls ih =>
    rw [List.forall_mem_cons] at hcalls
    rw [storeAll, List.foldl_cons]
    refine (ih hcalls.2).trans ?_
    rw [entryAt, store_other env (Ne.symm hcalls.1), entryAt]

/-! ## The response that is put together -/

/-- The header fields that are sent. -/
def sentFields (entry : CacheEntry) : Headers :=
  let sent := entry.headers.filter fun f => !isHopByHopHeader (toLowerAscii f.1)
  sent ++ if sent.any fun f => toLowerAscii f.1 = ascii "content-length" then []
    else [(ascii "Content-Length", decimal entry.body.length)]

/-- What is sent, line by line. -/
theorem rebuildResponse_eq (entry : CacheEntry) :
    rebuildResponse entry =
      ((ascii "HTTP/1.1 " ++ decimal entry.statusCode ++ ascii " " ++ entry.reasonPhrase) ::
        (sentFields entry).map headerLine).flatMap (· ++ crlf) ++ crlf ++ entry.body := by
  have hlength : ∀ sent : Headers,
      (if sent.any fun f => toLowerAscii f.1 = ascii "content-length" then []
        else ascii "Content-Length: " ++ decimal entry.body.length ++ crlf) =
      ((if sent.any fun f => toLowerAscii f.1 = ascii "content-length" then []
        else [(ascii "Content-Length", decimal entry.body.length)] : Headers).map headerLine).flatMap (· ++ crlf) := by
    intro sent
    split
    · rfl
    · simp [headerLine, ascii]
  simp only [rebuildResponse, sentFields, hlength]
  simp only [List.flatMap_cons, List.map_append, List.flatMap_append, List.flatMap_map, List.append_assoc]

/-- A `content-length` is passed on. -/
theorem any_endToEnd_length (headers : Headers) :
    (headers.endToEnd.any fun f => f.1 = ascii "content-length") = headers.any fun f => f.1 = ascii "content-length" := by
  rw [Bool.eq_iff_iff, List.any_eq_true, List.any_eq_true]
  constructor
  · rintro ⟨f, hf, hname⟩
    exact ⟨f, (List.mem_filter.mp hf).1, hname⟩
  · rintro ⟨f, hf, hname⟩
    refine ⟨f, List.mem_filter.mpr ⟨hf, ?_⟩, hname⟩
    rw [of_decide_eq_true hname]
    decide

/-- The fields of an entry made of a parsed response, in whatever order the map was gone through. -/
theorem perm_sentFields {info : ResponseInfo} (h : info.Parsed) (now : Int) :
    (sentFields (makeEntry env now info)).Perm (info.headers.endToEnd ++ info.addedLength) := by
  have hperm : (env.order info.headers).Perm info.headers := env.order_perm info.headers
  have hsent : ((env.order info.headers).filter fun f =>
      !isHopByHopHeader (toLowerAscii f.1)).Perm info.headers.endToEnd := by
    refine (hperm.filter _).trans ?_
    rw [Headers.endToEnd, List.filter_congr]
    intro f hf
    rw [h.headers.lower f hf]
  have hany : ((env.order info.headers).filter fun f => !isHopByHopHeader (toLowerAscii f.1)).any
      (fun f => toLowerAscii f.1 = ascii "content-length") = info.headers.any fun f => f.1 = ascii "content-length" := by
    rw [← any_endToEnd_length, Bool.eq_iff_iff, List.any_eq_true, List.any_eq_true]
    have hlower : ∀ f ∈ info.headers.endToEnd, toLowerAscii f.1 = f.1 :=
      fun f hf => h.headers.lower f (List.mem_filter.mp hf).1
    constructor
    · rintro ⟨f, hf, hname⟩
      have hmem := hsent.mem_iff.mp hf
      exact ⟨f, hmem, by rwa [hlower f hmem] at hname⟩
    · rintro ⟨f, hf, hname⟩
      exact ⟨f, hsent.mem_iff.mpr hf, by rwa [hlower f hf]⟩
  simp only [sentFields, makeEntry, hany]
  exact hsent.append_right _

/-- No line of the head has a line end in it. -/
theorem plain_sentFields {info : ResponseInfo} (h : info.Parsed) (now : Int) :
    ∀ f ∈ sentFields (makeEntry env now info), 13 ∉ headerLine f := by
  intro f hf
  rcases List.mem_append.mp ((perm_sentFields env h now).mem_iff.mp hf) with hf | hf
  · obtain ⟨hname, hvalue⟩ := h.headers.plain f (List.mem_filter.mp hf).1
    exact not_mem_headerLine hname.1 hvalue.1
  · unfold ResponseInfo.addedLength at hf
    split at hf
    · cases hf
    · obtain rfl := List.mem_singleton.mp hf
      exact not_mem_headerLine (show 13 ∉ ascii "Content-Length" by decide) (not_mem_decimal (by decide) _)

/-- The status line of a parsed response has no line end in it. -/
theorem plain_sentStatusLine {info : ResponseInfo} (h : info.Parsed) : 13 ∉ info.sentStatusLine :=
  not_mem_append (not_mem_append (not_mem_append (by decide) (not_mem_decimal (by decide) _)) (by decide)) h.reason.1

/-- There is one `content-length`, the map's or the added one, and it is the length of the body. -/
theorem length_endToEnd {info : ResponseInfo} (h : info.Parsed) :
    ∃ f, fieldsNamed "content-length" (info.headers.endToEnd ++ info.addedLength) = [f] ∧
      lengthValue f.2 = some info.body.length := by
  rw [fieldsNamed_append, ResponseInfo.addedLength, ← any_endToEnd_length]
  rcases fieldsNamed_endToEnd h.headers.lower h.headers.distinct "content-length" with ⟨hany, v, hmem, heq⟩ | ⟨hany, heq⟩
  · rw [heq, if_pos hany]
    exact ⟨_, rfl, h.length v hmem⟩
  · have hlower : toLowerAscii (ascii "Content-Length") = ascii "content-length" := by decide
    rw [heq, if_neg (by simp [hany])]
    exact ⟨(ascii "Content-Length", decimal info.body.length), by simp [fieldsNamed, hlower], lengthValue_decimal _⟩

end PersistentCache

/-- A request without validators. -/
def RequestInfo.unconditional (req : RequestInfo) : Bool :=
  (req.headers.lookup (ascii "if-none-match")).isNone && (req.headers.lookup (ascii "if-modified-since")).isNone

/-- A request without validators is not answered with a 304. -/
theorem checkNotModified_unconditional {req : RequestInfo} (h : req.unconditional = true) (entry : CacheEntry) :
    PersistentCache.checkNotModified req entry = false := by
  simp only [RequestInfo.unconditional, Bool.and_eq_true, Option.isNone_iff_eq_none] at h
  simp [PersistentCache.checkNotModified, PersistentCache.checkNotModified.byDate, h.1, h.2]

/-- A response other than 204 that is stored is found again, as long as it is fresh and nothing else is stored under
its key, by a request without validators. The answer is cut by its first empty line into a head and the body that was
parsed. The head is a status line with the status and the reason, and header lines; these are the end-to-end headers
of the map, and a `Content-Length` if the map has none; and the only `content-length` is the length of the body. -/
theorem stored_response_found {τ ρ : Type} (env : CacheEnv τ ρ) (hlexer : Promises env.lexer)
    (hcodec : env.codec.RoundTrip)
    (db : Database ρ) (s t : Int) (key upstream : Bytes) (putOk : Bool) (info : ResponseInfo)
    (calls : List PersistentCache.StoreCall) (req : RequestInfo)
    (hstore : (PersistentCache.store env db s key upstream putOk).2 = true)
    (hinfo : PersistentCache.parseUpstream env upstream = some info) (hstatus : info.statusCode ≠ 204)
    (hcalls : ∀ c ∈ calls, c.key ≠ key) (hfresh : s ≤ t ∧ t ≤ s + PersistentCache.computeTtl info)
    (hreq : req.unconditional = true) :
    ∃ response head fields f,
      PersistentCache.lookup env (PersistentCache.storeAll env
        (PersistentCache.store env db s key upstream putOk).1 calls) t key req =
        { status := .hit, response := response } ∧
      splitMessage response = some (head, info.body) ∧ headLines head = info.sentStatusLine :: fields.map headerLine ∧
      fields.Perm (info.headers.endToEnd ++ info.addedLength) ∧
      fieldsNamed "content-length" fields = [f] ∧ lengthValue f.2 = some info.body.length := by
  have hparsed := PersistentCache.parseUpstream_parsed hlexer hinfo hstatus
  have hentry : PersistentCache.entryAt env
      (PersistentCache.storeAll env (PersistentCache.store env db s key upstream putOk).1 calls) key =
        some (PersistentCache.makeEntry env s info) := by
    rw [PersistentCache.entryAt_storeAll env hcalls]
    obtain ⟨info', raw, hinfo', hraw, hput⟩ := PersistentCache.store_true env hstore
    obtain rfl := Option.some.inj (hinfo.symm.trans hinfo')
    rw [hput, PersistentCache.entryAt_update]
    exact hcodec _ _ hraw
  have hperm := PersistentCache.perm_sentFields env hparsed s
  obtain ⟨f, hone, hlength⟩ := PersistentCache.length_endToEnd hparsed
  obtain ⟨hsplit, hlines⟩ := splitMessage_lines (PersistentCache.plain_sentStatusLine hparsed)
    (PersistentCache.plain_sentFields env hparsed s) info.body
  refine ⟨PersistentCache.rebuildResponse (PersistentCache.makeEntry env s info), _, _, f,
    ?_, ?_, hlines, hperm, ?_, hlength⟩
  · have hisFresh : PersistentCache.isFresh t (PersistentCache.makeEntry env s info) = true := decide_eq_true hfresh.2
    simp [PersistentCache.lookup, hentry, hisFresh, checkNotModified_unconditional hreq]
  · rw [PersistentCache.rebuildResponse_eq]
    exact hsplit
  · rw [← List.perm_singleton, ← hone]
    exact hperm.filter _

/-! ## A chunked response -/

namespace Llhttp

/-- What a byte leaves of a table, and what it completes, was in the table. -/
theorem Table.read_cases {σ κ α : Type} {state : Table κ α → σ} {table : Table κ α} {b : UInt8} :
    (∃ rest : Table κ α, Table.read state table b = .more (state rest) [] ∧ ∀ e ∈ rest, ∃ e' ∈ table, e'.2 = e.2) ∨
      (∃ e ∈ table, Table.read state table b = .done e.2.2 e.2.1) ∨ Table.read state table b = .error := by
  rw [Table.read]
  generalize hrest : table.filterMap _ = rest
  have hmem : ∀ e ∈ rest, ∃ e' ∈ table, e'.2 = e.2 := by
    intro e he
    rw [← hrest] at he
    obtain ⟨e', he', heq⟩ := List.mem_filterMap.mp he
    refine ⟨e', he', ?_⟩
    split at heq
    · cases heq
    · split at heq
      · rw [← Option.some.inj heq]
      · cases heq
  cases hdone : rest.lookup [] with
  | some r =>
    have hin : ([], r) ∈ rest := by
      obtain ⟨l₁, l₂, rfl, -⟩ := List.lookup_eq_some_iff.mp hdone
      simp
    obtain ⟨e, he, heq⟩ := hmem _ hin
    refine .inr (.inl ⟨e, he, ?_⟩)
    simp only [heq]
  | none =>
    simp only
    split
    · exact .inr (.inr rfl)
    · exact .inl ⟨rest, rfl, hmem⟩

/-- What a table reads whole is one of its texts. -/
theorem Table.mem_of_readAll {σ κ α : Type} {table : σ → Table κ α} {state : Table κ α → σ}
    (hstate : ∀ t, table (state t) = t) {s : σ}
    {text : Bytes} {r : List κ × α} (h : readAll (fun s => Table.read state (table s)) s text = some r) :
    ∃ e ∈ table s, e.2 = r := by
  induction text generalizing s r with
  | nil => cases h
  | cons b text ih =>
    rw [readAll] at h
    rcases @Table.read_cases _ _ _ state (table s) b with ⟨rest, heq, hrest⟩ | ⟨e, he, heq⟩ | heq
    · simp only [heq, List.nil_append] at h
      obtain ⟨e, he, rfl⟩ := ih (by simpa using h)
      rw [hstate] at he
      exact hrest e he
    · simp only [heq] at h
      split at h
      · exact ⟨e, he, Option.some.inj h⟩
      · cases h
    · simp only [heq] at h
      cases h

/-- A head that is read is one of the table. -/
theorem mem_of_readAll_head {heads : Table (Text × Bytes) Head} {chunks : Table Piece Head} {kind : Kind} {text : Bytes}
    {r : List (Text × Bytes) × Head}
    (h : readAll ((tableLexer heads chunks).head kind) (tableLexer heads chunks).headStart text = some r) :
    ∃ e ∈ heads, e.2 = r :=
  @Table.mem_of_readAll Tables _ _ Prod.fst (fun table => (table, [])) (fun _ => rfl) _ _ _ h

/-- A chunked body that is read is one of the table. -/
theorem mem_of_readAll_chunk {heads : Table (Text × Bytes) Head} {chunks : Table Piece Head} {kind : Kind}
    {info : Head} {body : Bytes} {r : List Piece × Head}
    (h : readAll ((tableLexer heads chunks).chunk kind info) (tableLexer heads chunks).chunkStart body = some r) :
    ∃ e ∈ chunks, e.2 = r :=
  @Table.mem_of_readAll Tables _ _ Prod.snd (fun table => ([], table)) (fun _ => rfl) _ _ _ h

end Llhttp

namespace ChunkedPage

/-- The head of a chunked page. -/
def head : Bytes := ascii "HTTP/1.1 200 OK\r\nTransfer-Encoding: chunked\r\n\r\n"

/-- Its body. -/
def chunks : Bytes := ascii "2\r\nhi\r\n0\r\n\r\n"

/-- The texts of its head. -/
def texts : List (Text × Bytes) :=
  [(.version, ascii "1.1"), (.status, ascii "OK"), (.headerField, ascii "Transfer-Encoding"),
    (.headerValue, ascii "chunked")]

/-- What llhttp notes of its head. -/
def info : Head := { statusCode := 200, chunked := true, transferEncoding := true }

/-- What llhttp finds in the response. -/
def lexer : Lexer Tables := tableLexer [(head, texts, info)] [(chunks, [.body (ascii "hi")], info)]

/-- No other head is read. -/
theorem texts_eq (hd : HeadText lexer .response) : hd.texts = texts ∧ hd.info = info := by
  obtain ⟨e, he, heq⟩ := mem_of_readAll_head hd.isHead
  rw [List.mem_singleton.mp he] at heq
  exact ⟨(congrArg Prod.fst heq).symm, (congrArg Prod.snd heq).symm⟩

/-- No other body is read. -/
theorem pieces_eq {h last : Head} {body : Bytes} {pieces : List Piece}
    (hbody : readAll (lexer.chunk .response h) lexer.chunkStart body = some (pieces, last)) :
    pieces = [.body (ascii "hi")] := by
  obtain ⟨e, he, heq⟩ := mem_of_readAll_chunk hbody
  rw [List.mem_singleton.mp he] at heq
  exact (congrArg Prod.fst heq).symm

/-- So llhttp keeps its promises on this table. -/
theorem promises : Promises lexer where
  noMethod := by
    intro hd
    rw [(texts_eq hd).2]
    decide
  plainHead := by
    intro hd t ht
    rw [(texts_eq hd).1] at ht
    revert t
    unfold PlainText
    decide
  plainTrailer := by
    intro hd body pieces last hbody field bytes hmem
    rw [pieces_eq hbody] at hmem
    cases List.mem_singleton.mp hmem
  length := by
    intro hd v hv
    rw [HeadText.response, HeadText.callbacks, (texts_eq hd).1, (texts_eq hd).2] at hv
    have hheader : (ascii "content-length", v) ∈ [(ascii "transfer-encoding", ascii "chunked")] := hv
    exact absurd (Prod.mk.inj (List.mem_singleton.mp hheader)).1 (by decide)
  noLength := by
    intro hd body pieces last _ hbody v hv
    rw [pieces_eq hbody, HeadText.response, HeadText.callbacks, (texts_eq hd).1, (texts_eq hd).2] at hv
    have hheader : (ascii "content-length", v) ∈ [(ascii "transfer-encoding", ascii "chunked")] := hv
    exact absurd (Prod.mk.inj (List.mem_singleton.mp hheader)).1 (by decide)

/-- Headers are gone through backwards. -/
def env : CacheEnv Tables CacheEntry where
  lexer := lexer
  codec := Page.codec
  order headers := headers.reverse
  order_perm headers := List.reverse_perm headers

/-- What the parser makes of the response. -/
def parsed : ResponseInfo where
  statusCode := 200
  reasonPhrase := ascii "OK"
  version := ascii "1.1"
  chunked := true
  keepAlive := true
  headers := [(ascii "transfer-encoding", ascii "chunked")]
  body := ascii "hi"

theorem parseUpstream_eq : PersistentCache.parseUpstream env (head ++ chunks) = some parsed := by
  rfl

/-- Another response is stored in between. -/
def between : PersistentCache.StoreCall := { now := 10, key := ascii "l", response := head ++ chunks, putOk := true }

end ChunkedPage

/-- A response that came in chunks is found at the end of its hour, with the length of its body. -/
theorem stored_response_found_chunked :
    ∃ response head fields f,
      PersistentCache.lookup ChunkedPage.env (PersistentCache.storeAll ChunkedPage.env
        (PersistentCache.store ChunkedPage.env (fun _ => none) 0 (ascii "k")
          (ChunkedPage.head ++ ChunkedPage.chunks) true).1
        [ChunkedPage.between]) 3600 (ascii "k") RequestInfo.empty = { status := .hit, response := response } ∧
      splitMessage response = some (head, ascii "hi") ∧
        headLines head = ChunkedPage.parsed.sentStatusLine :: fields.map headerLine ∧
      fields.Perm (ChunkedPage.parsed.headers.endToEnd ++ ChunkedPage.parsed.addedLength) ∧
      fieldsNamed "content-length" fields = [f] ∧ lengthValue f.2 = some 2 := by
  refine stored_response_found ChunkedPage.env ChunkedPage.promises Page.codec_roundTrip
    (fun _ => none) 0 3600 (ascii "k")
    (ChunkedPage.head ++ ChunkedPage.chunks) true ChunkedPage.parsed
      [ChunkedPage.between] RequestInfo.empty ?_ ChunkedPage.parseUpstream_eq
    ?_ ?_ ?_ rfl
  · decide +kernel
  · decide
  · intro c hc
    rw [List.mem_singleton.mp hc]
    decide
  · decide +kernel

example : PersistentCache.rebuildResponse (PersistentCache.makeEntry ChunkedPage.env 0 ChunkedPage.parsed) =
    ascii "HTTP/1.1 200 OK\r\nContent-Length: 2\r\n\r\nhi" := by
  decide

end HpServer
