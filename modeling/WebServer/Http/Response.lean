import WebServer.Base.Bytes

/-!
# Responses

`HttpResponse` as `include/http.h` declares it, its three makers and
`serialize`. Numbers go through an `ostream`, so they are written in decimal
with no leading zero.
-/

namespace WebServer

open Base

/-- A number as `operator<<` and `std::to_string` write it. -/
def decimal (n : Nat) : Bytes := (Nat.toDigits 10 n).map fun c => UInt8.ofNat c.toNat

/-- A signed number as `operator<<` and `std::to_string` write it. -/
def decimalInt : Int → Bytes
  | .ofNat n => decimal n
  | .negSucc n => 45 :: decimal (n + 1)

def statusMessage (statusCode : Int) : Bytes :=
  ascii <|
    match statusCode with
    | 200 => "OK"
    | 201 => "Created"
    | 204 => "No Content"
    | 400 => "Bad Request"
    | 403 => "Forbidden"
    | 404 => "Not Found"
    | 405 => "Method Not Allowed"
    | 408 => "Request Timeout"
    | 413 => "Payload Too Large"
    | 414 => "URI Too Long"
    | 431 => "Request Header Fields Too Large"
    | 500 => "Internal Server Error"
    | 501 => "Not Implemented"
    | 505 => "HTTP Version Not Supported"
    | 507 => "Insufficient Storage"
    | _ => "Unknown"

structure HttpResponse where
  status : Int := 200
  contentType : Bytes := ascii "text/html"
  body : Bytes := []
  extraHeaders : List (Bytes × Bytes) := []
  keepAlive : Bool := true
  deriving DecidableEq

namespace HttpResponse

def json (payload : Bytes) (status : Int := 200) : HttpResponse where
  status := status
  contentType := ascii "application/json"
  body := payload

def text (payload : Bytes) (status : Int := 200) : HttpResponse where
  status := status
  contentType := ascii "text/plain"
  body := payload

/-- After some errors the connection's state is no longer trustworthy, and the
response closes it. -/
def error (status : Int) : HttpResponse where
  status := status
  contentType := ascii "text/html"
  body := ascii "<html><body><h1>" ++ decimalInt status ++ [32] ++ statusMessage status ++
    ascii "</h1></body></html>"
  keepAlive := !(status = 400 || status = 408 || status = 413 || status = 431 || status = 505)

/-- `omitBody` is set for HEAD: headers are identical, the body is dropped. -/
def serialize (response : HttpResponse) (omitBody : Bool := false) : Bytes :=
  ascii "HTTP/1.1 " ++ decimalInt response.status ++ [32] ++ statusMessage response.status ++
    [13, 10] ++
  (ascii "Content-Length: " ++ decimal response.body.length ++ [13, 10]) ++
  (ascii "Content-Type: " ++ response.contentType ++ [13, 10]) ++
  (ascii "Connection: " ++ (if response.keepAlive then ascii "keep-alive" else ascii "close") ++
    [13, 10]) ++
  (response.extraHeaders.flatMap fun (name, value) => name ++ ascii ": " ++ value ++ [13, 10]) ++
  [13, 10] ++
  (if omitBody then [] else response.body)

end HttpResponse

end WebServer
