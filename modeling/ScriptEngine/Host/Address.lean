import ScriptEngine.Http.Message

/-!
# Addresses of resources

The part of an address that a fetch within one machine needs, which is the port and the target, and
why nobody answers there.
-/
namespace ScriptEngine.Http

/-- Where a fetch goes. -/
structure Address where
  host : List Char
  port : Nat
  target : List Char
deriving DecidableEq, Repr

/-- Reads an address of the plain protocol; without a port it is the usual one. -/
def Address.parse? (url : String) : Option Address :=
  match url.toList with
  | 'h' :: 't' :: 't' :: 'p' :: ':' :: '/' :: '/' :: cs =>
    let authority := cs.takeWhile fun c => c != '/' && c != '?' && c != '#'
    let rest := (cs.drop authority.length).takeWhile (· != '#')
    let target := if rest.head? == some '/' then rest else '/' :: rest
    if authority.isEmpty then none
    else
      match splitAtFirst? ':' authority with
      | none => some ⟨authority, 80, target⟩
      | some (host, port) => (parseLength port).map fun port => ⟨host, port, target⟩
  | _ => none

/-- Whether an address is on this machine. -/
def Address.isLocal (a : Address) : Bool :=
  a.host == "127.0.0.1".toList || a.host == "localhost".toList

/-- The request that a fetch sends. -/
def Address.request (a : Address) : Request :=
  ⟨"GET", String.ofList (a.target.takeWhile (· != '?')), ""⟩

/-- Why a fetch gets no answer. -/
inductive FetchError where
  | badAddress
  | unreachable
  | unknownHost
  | refused
deriving DecidableEq, Repr

def FetchError.reason : FetchError → String
  | badAddress => "Bad URL"
  | unreachable => "Connection Failed: Connect error: Network is unreachable (os error 101)"
  | unknownHost => "Dns Failed"
  | refused => "Connection Failed: Connect error: Connection refused (os error 111)"

/-- The message names the address as it was given. -/
def FetchError.message (url : String) (e : FetchError) : String := url ++ ": " ++ e.reason

end ScriptEngine.Http
