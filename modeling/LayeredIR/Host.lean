import LayeredIR.Effect

/-! A sample host, to run programs with: it keeps a print sink, a counter and a log of the calls
made to it. What holds of the evaluators holds for any host. -/
namespace LayeredIR

structure Host where
  sink : Sink
  ticks : Nat
  /-- The calls so far, the last one first: the effect and the text of each argument. -/
  log : List (String × List String)

namespace Host

def new (sink : Sink) : Host := ⟨sink, 0, []⟩

def writeLine (line : String) (host : Host) : Host :=
  { host with sink := host.sink.writeLine line }

def calls (host : Host) : List (String × List String) := host.log.reverse

abbrev Action := Futures → List Value → Host → Except Cause Value × Host

def logged (name : String) (action : Action) : Handler Host := fun futures args host =>
  let host := { host with log := (name, args.map (Value.textWith futures)) :: host.log }
  let (result, host) := action futures args host
  (result.mapError Fault.ofCause, host)

def tick : Action := fun _ _ host =>
  let host := { host with ticks := host.ticks + 1 }
  (.ok (.int (Int64.ofNat host.ticks)), host)

def echo : Action := fun _ args host =>
  (.ok (args.headD .void), host)

def count : Action := fun _ args host =>
  (.ok (.int (Int64.ofNat args.length)), host)

def fail : Action := fun futures args host =>
  (.error (.raised ⟨"HostFailure", args.head?.map (Value.display futures)⟩), host)

def errorValue : Action := fun _ _ host =>
  (.ok (.error ⟨"HostError", none⟩), host)

def overflow : Action := fun _ _ host =>
  (.error (.integerOverflow "host"), host)

def effectNames : List String :=
  ["print", "tick", "echo", "count", "fail", "errval", "overflow"]

def register? (registry : Effects Host) (name : String) : Option (Effects Host) :=
  let withAction (action : Action) := some (registry.register name (logged name action))
  match name with
  | "print" => some (registry.registerPrint writeLine)
  | "tick" => withAction tick
  | "echo" => withAction echo
  | "count" => withAction count
  | "fail" => withAction fail
  | "errval" => withAction errorValue
  | "overflow" => withAction overflow
  | _ => none

end Host
end LayeredIR
