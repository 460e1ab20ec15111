import WebServer.Lib.Bytes

/-!
# Http/HttpType — the enumerations of a connection, and the mime table
-/

namespace WebServer.Http

/-- How far the current request has been handled. -/
inductive ProcessState
  | parseLine
  | parseHeaders
  | recvBody
  | response
  | finish
  deriving DecidableEq, Repr

/-- The answer of `parseRequestLine`. -/
inductive LineState
  | success
  | again
  | error
  deriving DecidableEq, Repr

/-- The answer of `parseRequestHeader`. -/
inductive HeaderState
  | success
  | again
  | error
  deriving DecidableEq, Repr

/-- The answer of `buildResponse`. -/
inductive ResponseState
  | success
  | error
  deriving DecidableEq, Repr

/-- The states of the header scanner. -/
inductive ParseState
  | start
  | key
  | colon
  | spacesAfterColon
  | value
  | cr
  | lf
  | endCr
  | endLf
  deriving DecidableEq, Repr

/-- Whether the peer is still there. -/
inductive ConnectionState
  | connected
  | disconnecting
  | disconnected
  deriving DecidableEq, Repr

inductive RequestMethod
  | get
  | post
  | head
  deriving DecidableEq, Repr

inductive HttpVersion
  | http10
  | http11
  deriving DecidableEq, Repr

/-- `mime_map`, as `OnceInit` fills it. -/
def mimeMap : List (Bytes × Bytes) :=
  [(text ".html", text "text/html"),
   (text ".avi", text "video/x-msvideo"),
   (text ".bmp", text "image/bmp"),
   (text ".c", text "text/plain"),
   (text ".doc", text "application/msword"),
   (text ".gif", text "image/gif"),
   (text ".gz", text "application/x-gzip"),
   (text ".htm", text "text/html"),
   (text ".ico", text "image/x-icon"),
   (text ".jpg", text "image/jpeg"),
   (text ".png", text "image/png"),
   (text ".txt", text "text/plain"),
   (text ".mp3", text "audio/mp3"),
   (text "default", text "text/html")]

/-- `MimeType::get_mime`: an unknown type is served as the default one. -/
def getMime (type : Bytes) : Bytes :=
  match mimeMap.lookup type with
  | some mime => mime
  | none => (mimeMap.lookup (text "default")).getD []

end WebServer.Http
