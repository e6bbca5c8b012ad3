import ScriptEngine.Text.Blank
import ScriptEngine.Text.Utf8

/-!
# HTTP messages

A request is a line with method and target, header lines, and a body whose length a header gives.
Only that header is looked at. Lines have to be well-formed text; a body may hold any bytes.
-/
namespace ScriptEngine.Http

structure Request where
  method : String
  path : String
  body : String
deriving DecidableEq, Repr

inductive RequestError where
  | malformedLine
  | badLength
  | tooLarge
  | notText
  | shortBody
deriving DecidableEq, Repr

def RequestError.message : RequestError → String
  | .malformedLine => "malformed request line"
  | .badLength => "bad Content-Length"
  | .tooLarge => "request body too large"
  | .notText => "stream did not contain valid UTF-8"
  | .shortBody => "failed to fill whole buffer"

/-- The largest body that is read. -/
def maxBody : Nat := 8 * 1024 * 1024

/-- The bytes up to and with the first line feed, and the bytes after it. -/
def takeLine : List UInt8 → List UInt8 × List UInt8
  | [] => ([], [])
  | b :: bs =>
    if b = 10 then ([b], bs)
    else
      let (line, rest) := takeLine bs
      (b :: line, rest)

/-- The part before the first occurrence of a character and the part after it. -/
def splitAtFirst? (c : Char) (cs : List Char) : Option (List Char × List Char) :=
  match cs.dropWhile (· != c) with
  | [] => none
  | _ :: rest => some (cs.takeWhile (· != c), rest)

/-- A decimal number that a machine word holds; a plus sign may stand before it. -/
def parseLength (cs : List Char) : Option Nat :=
  let ds := match cs with
    | '+' :: rest => rest
    | _ => cs
  if ds.isEmpty || !ds.all Char.isDigit then none
  else
    let n := ds.foldl (fun n d => 10 * n + (d.toNat - '0'.toNat)) 0
    if n < Nat.pow 2 64 then some n else none

/-- Whether a header has this name, whatever the case of its letters. -/
def isNamed (name : String) (cs : List Char) : Bool :=
  (Text.trim cs).map Char.toLower == name.toList

/-- Reads header lines up to a blank one or the end; `length` is the body length so far, and at most
`n` lines are read. -/
def readHeaders : Nat → Nat → List UInt8 → Except RequestError (Nat × List UInt8)
  | 0, length, bytes => .ok (length, bytes)
  | n + 1, length, bytes =>
    let (line, rest) := takeLine bytes
    match Text.decodeFrom? .start line with
    | none => .error .notText
    | some cs =>
      let header := Text.trimEnd cs
      if header.isEmpty then .ok (length, rest)
      else
        match splitAtFirst? ':' header with
        | none => readHeaders n length rest
        | some (name, value) =>
          if isNamed "content-length" name then
            match parseLength (Text.trim value) with
            | some length => readHeaders n length rest
            | none => .error .badLength
          else readHeaders n length rest

/-- Reads a request off the front of the bytes. -/
def readRequest (bytes : List UInt8) : Except RequestError Request :=
  let (line, rest) := takeLine bytes
  match Text.decodeFrom? .start line with
  | none => .error .notText
  | some cs =>
    match Text.words cs with
    | method :: target :: _ =>
      match readHeaders (rest.length + 1) 0 rest with
      | .error e => .error e
      | .ok (length, rest) =>
        if maxBody < length then .error .tooLarge
        else if rest.length < length then .error .shortBody
        else
          .ok {
            method := String.ofList method
            path := String.ofList (target.takeWhile (· != '?'))
            body := Text.decodeLossy (rest.take length) }
    | _ => .error .malformedLine

/-- The phrase of a status. -/
def reason (status : Nat) : String :=
  match status with
  | 200 => "OK"
  | 201 => "Created"
  | 204 => "No Content"
  | 400 => "Bad Request"
  | 404 => "Not Found"
  | 500 => "Internal Server Error"
  | _ => "Status"

/-- A response as it goes over the wire. -/
def response (status : Nat) (body : String) : String :=
  "HTTP/1.1 " ++ toString status ++ " " ++ reason status
    ++ "\r\nContent-Type: text/plain; charset=utf-8\r\nContent-Length: "
    ++ toString body.utf8ByteSize ++ "\r\nConnection: close\r\n\r\n" ++ body

end ScriptEngine.Http
