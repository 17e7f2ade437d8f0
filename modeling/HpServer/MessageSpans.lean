import HpServer.HttpRequestParser
import HpServer.HttpResponseParser

/-!
# Messages in spans

What llhttp calls back with for one message, apart from how it finds it: the texts of the first line, a name and a
value for each header, the end of the headers, the body, the fields of the trailer, the end of the message. Each text
is a span, which comes in parts. Without the cuts between the parts it is a `WholeMessage`, and that has a request and
a response of its own.
-/

namespace HpServer
namespace Llhttp

/-- A span of text, in the parts it is called back in: at least one, and any of them may be empty. -/
structure Span where
  parts : List Bytes
  called : parts ≠ []

/-- The span without the cuts. -/
def Span.text (s : Span) : Bytes := s.parts.flatten

def Span.callbacks (make : Bytes → Callback) (s : Span) : List Callback := s.parts.map make

/-- The texts of the first line. -/
inductive LineText where
  | url
  | status
  | version
  deriving DecidableEq

def LineText.text : LineText → Text
  | .url => .url
  | .status => .status
  | .version => .version

/-- A header, or a field of a trailer. -/
structure FieldSpans where
  name : Span
  value : Span
  named : name.text ≠ []

/-- The field without the cuts. -/
def FieldSpans.field (f : FieldSpans) : Bytes × Bytes := (f.name.text, f.value.text)

def FieldSpans.callbacks (f : FieldSpans) : List Callback :=
  f.name.callbacks (.text .headerField) ++ f.value.callbacks (.text .headerValue)

/-- A message as it is called back, without its trailer. -/
structure SpannedMessage where
  line : List (LineText × Span)
  fields : List FieldSpans
  head : Head
  body : List Span

namespace SpannedMessage

/-- The callbacks up to the end of the headers. -/
def headCallbacks (m : SpannedMessage) : List Callback :=
  .messageBegin :: m.line.flatMap (fun t => t.2.callbacks (.text t.1.text)) ++ m.fields.flatMap FieldSpans.callbacks ++
    [.headersComplete m.head]

/-- The callbacks for the message with a trailer. -/
def callbacks (m : SpannedMessage) (trailer : List FieldSpans) : List Callback :=
  m.headCallbacks ++ m.body.flatMap (Span.callbacks .body) ++ trailer.flatMap FieldSpans.callbacks ++ [.messageComplete]

end SpannedMessage

/-- A message without the cuts, and without its trailer. -/
structure WholeMessage where
  line : List (LineText × Bytes)
  fields : List (Bytes × Bytes)
  head : Head
  body : Bytes

def SpannedMessage.whole (m : SpannedMessage) : WholeMessage where
  line := m.line.map fun t => (t.1, t.2.text)
  fields := m.fields.map FieldSpans.field
  head := m.head
  body := (m.body.map Span.text).flatten

/-- The texts of one kind in the first line. -/
def lineText (line : List (LineText × Bytes)) (kind : LineText) : Bytes :=
  ((line.filter fun t => t.1 = kind).map Prod.snd).flatten

end Llhttp

namespace Headers

/-- The map with a header in it. -/
def add (headers : Headers) (field : Bytes × Bytes) : Headers := headers.set (toLowerAscii field.1) field.2

/-- The map of some headers: the later of two with one name counts. -/
def ofFields (fields : List (Bytes × Bytes)) : Headers := fields.foldl add []

/-- The value of the last of some headers that has a name. -/
def lastValue (fields : List (Bytes × Bytes)) (key : Bytes) : Option Bytes :=
  (fields.reverse.find? fun f => toLowerAscii f.1 = key).map Prod.snd

end Headers

namespace Llhttp.WholeMessage

/-- The `request_info` of a message when its headers are complete. -/
def requestAtHeaders (m : WholeMessage) : RequestInfo :=
  RequestInfo.postProcessHeaders
    { RequestInfo.empty with
      url := lineText m.line .url
      version := lineText m.line .version
      headers := Headers.ofFields m.fields
      method := m.head.method
      keepAlive := m.head.shouldKeepAlive .request
      contentLength := m.head.contentLength
      isConnect := m.head.method = ascii "CONNECT" }

/-- The `request_info` of a message. -/
def request (m : WholeMessage) : RequestInfo := { m.requestAtHeaders with body := m.body }

/-- The `response_info` of a message when its headers are complete. -/
def responseAtHeaders (m : WholeMessage) : ResponseInfo :=
  ResponseInfo.postProcessHeaders
    { reasonPhrase := lineText m.line .status
      version := lineText m.line .version
      headers := Headers.ofFields m.fields
      statusCode := m.head.statusCode
      keepAlive := m.head.shouldKeepAlive .response
      contentLength := m.head.contentLength }

/-- The `response_info` of a message. -/
def response (m : WholeMessage) : ResponseInfo := { m.responseAtHeaders with body := m.body }

end Llhttp.WholeMessage
end HpServer
