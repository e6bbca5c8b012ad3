/-!
# Built-in functions

The functions that scripts find ready made, in families that follow what they work on. Each has the
name under which it is shown and the argument counts it accepts. What they do is defined where the
machine they act on is.
-/
namespace ScriptEngine

/-- At least `min` arguments, and at most `max` unless there is no limit. -/
structure Arity where
  min : Nat
  max : Option Nat
deriving DecidableEq, Repr

namespace Arity

def exact (count : Nat) : Arity := ⟨count, some count⟩

def range (min max : Nat) : Arity := ⟨min, some max⟩

def accepts (a : Arity) (count : Nat) : Bool := a.min ≤ count && a.max.all (count ≤ ·)

/-- The counts as messages name them. -/
def describe (a : Arity) : String :=
  match a.max with
  | some max => if max = a.min then toString max else toString a.min ++ "-" ++ toString max
  | none => "at least " ++ toString a.min

end Arity

/-- Methods of arrays. -/
inductive ArrayMethod where
  | push | pop | pushFront | popFront | join | includes | indexOf | slice | map | filter | forEach
deriving DecidableEq, Repr

/-- Methods of strings. -/
inductive TextMethod where
  | split | trim | substr | startsWith | endsWith | toUpperCase | toLowerCase | replace | indexOf
  | includes
deriving DecidableEq, Repr

/-- Functions of the host object that take the text or array as an argument. -/
inductive TextFunction where
  | indexOf | split | length | substr
deriving DecidableEq, Repr

/-- Numbers, arguments of the program, time and the end of the program. -/
inductive SystemFunction where
  | clock | input | sqrt | abs | exit | sleep | pause | version | random | argCount | arg
deriving DecidableEq, Repr

/-- Files and directories. -/
inductive FileFunction where
  | readFile | writeFile | exists | readOrEmpty | read | write | append | delete | makeDirectory
  | list
deriving DecidableEq, Repr

inductive TimerFunction where
  | setTimeout | setInterval | clearTimeout | clearInterval
deriving DecidableEq, Repr

inductive JsonFunction where
  | parse | stringify
deriving DecidableEq, Repr

inductive DateFunction where
  | now | timestamp | format
deriving DecidableEq, Repr

/-- Workers and tasks: what a worker calls, what starts one, and the methods of its handle. -/
inductive WorkerFunction where
  | postOut | pollIn | startWorker | startTask | postIn | pollOut | terminate | wait
deriving DecidableEq, Repr

/-- Subscriptions to a promise. -/
inductive PromiseMethod where
  | onResolve | onReject
deriving DecidableEq, Repr

/-- Fetching, listening and answering. -/
inductive NetworkFunction where
  | fetch | listen | closeServer | sendReply
deriving DecidableEq, Repr

/-- A built-in function. -/
inductive Native where
  | array (method : ArrayMethod)
  | text (method : TextMethod)
  | textFunction (f : TextFunction)
  | system (f : SystemFunction)
  | file (f : FileFunction)
  | timer (f : TimerFunction)
  | json (f : JsonFunction)
  | date (f : DateFunction)
  | worker (f : WorkerFunction)
  | promise (method : PromiseMethod)
  | network (f : NetworkFunction)
deriving DecidableEq, Repr

namespace Native

/-- Name and accepted argument counts. -/
def signature : Native → String × Arity
  | array .push => ("push", .exact 1)
  | array .pop => ("pop", .exact 0)
  | array .pushFront => ("pushFront", .exact 1)
  | array .popFront => ("popFront", .exact 0)
  | array .join => ("join", .range 0 1)
  | array .includes => ("includes", .exact 1)
  | array .indexOf => ("indexOf", .exact 1)
  | array .slice => ("slice", .range 0 2)
  | array .map => ("map", .exact 1)
  | array .filter => ("filter", .exact 1)
  | array .forEach => ("forEach", .exact 1)
  | text .split => ("split", .exact 1)
  | text .trim => ("trim", .exact 0)
  | text .substr => ("substr", .range 1 2)
  | text .startsWith => ("startsWith", .exact 1)
  | text .endsWith => ("endsWith", .exact 1)
  | text .toUpperCase => ("toUpperCase", .exact 0)
  | text .toLowerCase => ("toLowerCase", .exact 0)
  | text .replace => ("replace", .exact 2)
  | text .indexOf => ("indexOf", .exact 1)
  | text .includes => ("includes", .exact 1)
  | textFunction .indexOf => ("indexOf", .exact 2)
  | textFunction .split => ("split", .exact 2)
  | textFunction .length => ("length", .exact 1)
  | textFunction .substr => ("substr", .exact 3)
  | system .clock => ("clock", .exact 0)
  | system .input => ("input", .range 0 1)
  | system .sqrt => ("sqrt", .exact 1)
  | system .abs => ("abs", .exact 1)
  | system .exit => ("exit", .range 0 1)
  | system .sleep => ("sleep", .exact 1)
  | system .pause => ("sleep", .exact 1)
  | system .version => ("version", .exact 0)
  | system .random => ("random", .exact 2)
  | system .argCount => ("argCount", .exact 0)
  | system .arg => ("arg", .exact 1)
  | file .readFile => ("readFile", .exact 1)
  | file .writeFile => ("writeFile", .exact 2)
  | file .exists => ("exists", .exact 1)
  | file .readOrEmpty => ("readFile", .exact 1)
  | file .read => ("read", .exact 1)
  | file .write => ("write", .exact 2)
  | file .append => ("append", .exact 2)
  | file .delete => ("delete", .exact 1)
  | file .makeDirectory => ("mkdir", .exact 1)
  | file .list => ("list", .exact 1)
  | timer .setTimeout => ("setTimeout", .range 1 2)
  | timer .setInterval => ("setInterval", .range 1 2)
  | timer .clearTimeout => ("clearTimeout", .exact 1)
  | timer .clearInterval => ("clearInterval", .exact 1)
  | json .parse => ("parse", .exact 1)
  | json .stringify => ("stringify", .exact 1)
  | date .now => ("now", .exact 0)
  | date .timestamp => ("timestamp", .exact 0)
  | date .format => ("format", .range 1 2)
  | worker .postOut => ("workerPostMessage", .exact 1)
  | worker .pollIn => ("workerPoll", .exact 0)
  | worker .startWorker => ("init", .exact 1)
  | worker .startTask => ("run", .exact 1)
  | worker .postIn => ("postMessage", .exact 1)
  | worker .pollOut => ("poll", .exact 0)
  | worker .terminate => ("terminate", .exact 0)
  | worker .wait => ("wait", .exact 0)
  | promise .onResolve => ("then", .exact 1)
  | promise .onReject => ("catch", .exact 1)
  | network .fetch => ("fetch", .exact 1)
  | network .listen => ("listen", .exact 2)
  | network .closeServer => ("close", .exact 0)
  | network .sendReply => ("send", .range 1 2)

def name (n : Native) : String := n.signature.1

def arity (n : Native) : Arity := n.signature.2

/-- The methods of every array. -/
def arrayMethods : List Native :=
  [.push, .pop, .pushFront, .popFront, .join, .includes, .indexOf, .slice, .map, .filter,
    .forEach].map array

/-- The methods of every string. -/
def textMethods : List Native :=
  [.split, .trim, .substr, .startsWith, .endsWith, .toUpperCase, .toLowerCase, .replace, .indexOf,
    .includes].map text

/-- The functions that are global names. -/
def globals : List Native :=
  [system .clock, system .input, system .sqrt, system .abs, file .readFile, file .writeFile,
   system .exit, system .sleep, timer .setTimeout, timer .setInterval, timer .clearTimeout,
   timer .clearInterval, worker .postOut, worker .pollIn]

/-- The global objects and their functions. -/
def globalObjects : List (String × List Native) :=
  [("FSK", [network .fetch, network .listen, system .version, system .pause, system .random,
      textFunction .indexOf, textFunction .split, textFunction .length, textFunction .substr,
      system .argCount, system .arg, file .exists, file .readOrEmpty]),
   ("JSON", [json .parse, json .stringify]),
   ("Date", [date .now, date .timestamp, date .format]),
   ("FS", [file .exists, file .read, file .write, file .append, file .delete,
      file .makeDirectory, file .list]),
   ("Worker", [worker .startWorker]),
   ("Task", [worker .startTask])]

/-- The method of that name in a list of methods. -/
def named? (methods : List Native) (name : String) : Option Native :=
  methods.find? fun n => n.name == name

end Native

end ScriptEngine
