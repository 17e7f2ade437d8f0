import HpServer.HttpConn
import HpServer.HttpHeaders

/-!
# Messages the proxy writes itself (`src/net/http/http_message_builder.cpp`)

The responses the proxy makes: the 503 of a failed job, the 403 of a request that is refused and the 200 that opens a
tunnel; and the request that is sent to the upstream server in place of the client's.
-/

namespace HpServer
namespace MessageBuilder

/-- The line end `\r\n`. -/
def crlf : Bytes := [13, 10]

/-- Drop carriage returns and line feeds; an empty result is replaced by `fallback`. -/
def sanitizeHeaderToken (value fallback : Bytes) : Bytes :=
  let out := value.filter fun c => c ≠ 13 ∧ c ≠ 10
  if out = [] then fallback else out

/-- Replace carriage returns by blanks. -/
def sanitizeBody (body : Bytes) : Bytes := body.map fun c => if c = 13 then 32 else c

/-- A response with a plain text body. -/
def buildPlainTextResponse (statusCode : Int) (reasonPhrase body : Bytes) (closeConnection : Bool) : Bytes :=
  let reason := sanitizeHeaderToken reasonPhrase (ascii "Unknown")
  let payload := sanitizeBody body
  ascii "HTTP/1.1 " ++ signedDecimal statusCode ++ ascii " " ++ reason ++ crlf ++
    ascii "Content-Type: text/plain; charset=utf-8" ++ crlf ++
    ascii "Content-Length: " ++ decimal payload.length ++ crlf ++
    ascii "Connection: " ++ (if closeConnection then ascii "close" else ascii "keep-alive") ++ crlf ++ crlf ++ payload

/-- `message`, and `detail` after a colon when there is one. -/
def withDetail (message detail : Bytes) : Bytes := if detail = [] then message else message ++ ascii ": " ++ detail

/-- The 503 a client gets when its job failed. -/
def buildServiceUnavailableResponse (detail : Bytes) : Bytes :=
  buildPlainTextResponse 503 (ascii "Service Unavailable") (withDetail (ascii "proxy upstream unavailable") detail) true

/-- `build_forbidden_response`. -/
def buildForbiddenResponse (detail : Bytes) : Bytes :=
  buildPlainTextResponse 403 (ascii "Forbidden") (withDetail (ascii "request forbidden") detail) true

/-- The 200 that opens a tunnel. -/
def buildConnectEstablishedResponse (proxyAgent : Bytes) : Bytes :=
  ascii "HTTP/1.1 200 Connection Established" ++ crlf ++
    ascii "Proxy-Agent: " ++ sanitizeHeaderToken proxyAgent (ascii "hpserver") ++ crlf ++ crlf

/-- The path of a URL behind its scheme: from the first slash on. -/
def originPath (rest : Bytes) : Bytes :=
  match rest.dropWhile (· ≠ 47) with
  | [] => ascii "/"
  | path => path

/-- `build_origin_form`. -/
def buildOriginForm (url : Bytes) : Bytes :=
  if ascii "http://" <+: url then originPath (url.drop 7)
  else if ascii "https://" <+: url then originPath (url.drop 8)
  else if url = [] then ascii "/"
  else if url = ascii "*" then url
  else if url.head? ≠ some 47 then 47 :: url
  else url

/-- `build_forward_proxy_request`. The loop over the headers leaves out the hop-by-hop ones and looks for `host` and
`content-length` among the others. -/
def buildForwardProxyRequest (req : RequestInfo) : Bytes :=
  if req.method = [] ∨ req.host = [] ∨ req.isConnect then []
  else
    let target := buildOriginForm req.url
    let version := if req.version = [] then ascii "1.1" else req.version
    let sent := Headers.endToEnd req.headers
    let hasHostHeader := sent.any fun f => f.1 = ascii "host"
    let hasContentLengthHeader := sent.any fun f => f.1 = ascii "content-length"
    req.method ++ ascii " " ++ target ++ ascii " HTTP/" ++ version ++ crlf ++
      sent.flatMap (fun f => headerLine f ++ crlf) ++
      (if hasHostHeader then []
       else ascii "host: " ++ req.host ++
        (if req.port ≠ 0 ∧ req.port ≠ 80 then ascii ":" ++ decimal req.port.toNat else []) ++ crlf) ++
      (if !hasContentLengthHeader && req.body ≠ [] then
        ascii "content-length: " ++ decimal req.body.length ++ crlf
       else []) ++
      ascii "connection: close" ++ crlf ++ crlf ++ req.body

end MessageBuilder
end HpServer
