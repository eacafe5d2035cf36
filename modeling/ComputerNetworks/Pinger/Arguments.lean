import ComputerNetworks.Lib.Flags
import ComputerNetworks.Pinger.Client

/-!
# The arguments of the client

What `main` of `udp_pinger_client.cpp` makes of its arguments.
-/

open Lib Lib.Bytes Lib.Number

namespace Pinger

/-! ## Reading -/

inductive Flag where
  | count
  | timeoutMs
  | intervalMs
  deriving DecidableEq, Repr

/-- The numbers while the flags are read, with their defaults. -/
structure Settings where
  count : Int32 := 10
  timeoutMs : Int32 := 1000
  intervalMs : Int32 := 1000

def Settings.set (s : Settings) : Flag → Int32 → Settings
  | .count, n => { s with count := n }
  | .timeoutMs, n => { s with timeoutMs := n }
  | .intervalMs, n => { s with intervalMs := n }

def Flag.text : Flag → Bytes
  | .count => ofString "--count"
  | .timeoutMs => ofString "--timeout-ms"
  | .intervalMs => ofString "--interval-ms"

def flagOf (arg : Bytes) : Option Flag :=
  if arg = Flag.count.text then some .count
  else if arg = Flag.timeoutMs.text then some .timeoutMs
  else if arg = Flag.intervalMs.text then some .intervalMs
  else none

def flags : Flags.Table Flag Int32 where
  isOption _ := true
  flagOf := flagOf
  value _ text := (stoi text).map Int32.ofInt

structure Arguments where
  host : Bytes
  port : Bytes
  opt : Options

/-- How `main` ends before it has options: with its usage, or with a message, or with an exception of
`std::stoi`. -/
inductive ArgsError where
  | usage
  | help
  | missing (flag : Bytes)
  | unknown (arg : Bytes)
  | badNumber (text : Bytes)
  | refused (what : String)
  deriving DecidableEq, Repr

def heartbeatFlag : Bytes := ofString "--heartbeat"

/-- What is behind `--heartbeat`. -/
def parseFrom (heartbeatMode : Bool) : List Bytes → Except ArgsError Arguments
  | host :: port :: args =>
    match Flags.read flags Settings.set {} args with
    | .error (.badValue _ text) => .error (.badNumber text)
    | .error (.missing flag) => .error (.missing flag)
    | .error (.unknown arg) =>
      if arg = ofString "--help" ∨ arg = ofString "-h" then .error .help else .error (.unknown arg)
    | .ok (s, _) =>
      match checkOptions heartbeatMode s.count s.timeoutMs s.intervalMs with
      | .error what => .error (.refused what)
      | .ok opt => .ok { host, port, opt }
  | _ => .error .usage

/-- The arguments behind the name of the program. -/
def parseArgs : List Bytes → Except ArgsError Arguments
  | [] => .error .usage
  | arg :: args => if arg = heartbeatFlag then parseFrom true args else parseFrom false (arg :: args)

/-! ## What is accepted -/

theorem reads_all {args rest : List Bytes} {given : List (Flag × Int32)}
    (h : Flags.Reads flags args given rest) : rest = [] := by
  obtain ⟨pairs, -, -, hrest⟩ := h
  cases rest with
  | nil => rfl
  | cons arg rest => cases hrest arg rfl

theorem settings_given (given : List (Flag × Int32)) :
    (Flags.settings Settings.set {} given).count = (Flags.last given .count).getD 10 ∧
      (Flags.settings Settings.set {} given).timeoutMs = (Flags.last given .timeoutMs).getD 1000 ∧
      (Flags.settings Settings.set {} given).intervalMs = (Flags.last given .intervalMs).getD 1000 := by
  have hcount := @Flags.settings_last _ _ _ Settings.set _ _ Settings.count .count id
    (fun s g v => by cases g <;> rfl) {} given
  have htimeout := @Flags.settings_last _ _ _ Settings.set _ _ Settings.timeoutMs .timeoutMs id
    (fun s g v => by cases g <;> rfl) {} given
  have hinterval := @Flags.settings_last _ _ _ Settings.set _ _ Settings.intervalMs .intervalMs id
    (fun s g v => by cases g <;> rfl) {} given
  rw [Option.map_id] at hcount htimeout hinterval
  exact ⟨hcount, htimeout, hinterval⟩

/-- The options are what was given last, or the defaults. -/
structure Options.From (o : Options) (given : List (Flag × Int32)) : Prop where
  count : (o.count : Int) = ((Flags.last given .count).getD 10).toInt
  timeoutMs : (o.timeoutMs : Int) = ((Flags.last given .timeoutMs).getD 1000).toInt
  intervalMs : (o.intervalMs : Int) = ((Flags.last given .intervalMs).getD 1000).toInt

theorem parseFrom_eq_ok_iff {heartbeatMode : Bool} {args : List Bytes} {a : Arguments} :
    parseFrom heartbeatMode args = .ok a ↔ a.opt.heartbeatMode = heartbeatMode ∧ ∃ given behind,
      args = a.host :: a.port :: behind ∧ Flags.Reads flags behind given [] ∧ a.opt.From given := by
  constructor
  · intro h
    unfold parseFrom at h
    split at h
    · rename_i host port args
      split at h
      · cases h
      · cases h
      · split at h <;> cases h
      · rename_i s rest hread
        split at h
        · cases h
        · rename_i opt hopt
          cases h
          obtain ⟨given, hreads, rfl⟩ := Flags.read_eq_ok_iff.mp hread
          obtain rfl := reads_all hreads
          obtain ⟨hcount, htimeout, hinterval⟩ := settings_given given
          obtain ⟨hmode, ha, hb, hc⟩ := checkOptions_eq_ok_iff.mp hopt
          exact ⟨hmode, given, args, rfl, hreads, hcount ▸ ha, htimeout ▸ hb, hinterval ▸ hc⟩
    · cases h
  · rintro ⟨hmode, given, behind, rfl, hreads, hcount, htimeout, hinterval⟩
    obtain ⟨ha, hb, hc⟩ := settings_given given
    rw [← ha] at hcount
    rw [← hb] at htimeout
    rw [← hc] at hinterval
    rw [parseFrom, Flags.read_eq_ok_iff.mpr ⟨given, hreads, rfl⟩]
    dsimp only
    rw [checkOptions_eq_ok_iff.mpr ⟨hmode, hcount, htimeout, hinterval⟩]

/-- **Arguments.** What `main` accepts is `--heartbeat` or not, a host, a port, and pairs of a flag and a
number, of which the last one counts. -/
theorem client_arguments (args : List Bytes) (a : Arguments) :
    parseArgs args = .ok a ↔ (a.opt.heartbeatMode = false → a.host ≠ heartbeatFlag) ∧ ∃ given behind,
      args = (if a.opt.heartbeatMode then [heartbeatFlag] else []) ++ a.host :: a.port :: behind ∧
        Flags.Reads flags behind given [] ∧ a.opt.From given := by
  cases args with
  | nil =>
    refine iff_of_false (by simp [parseArgs]) ?_
    rintro ⟨-, given, behind, hargs, -⟩
    simp at hargs
  | cons arg args =>
    rw [parseArgs]
    cases hmode : a.opt.heartbeatMode with
    | true =>
      rw [if_pos rfl]
      split
      · rename_i hflag
        rw [parseFrom_eq_ok_iff, hflag, hmode]
        simp
      · rename_i hflag
        rw [parseFrom_eq_ok_iff, hmode]
        refine iff_of_false (fun h => Bool.noConfusion h.1) ?_
        rintro ⟨-, given, behind, hargs, -⟩
        exact hflag (List.cons.inj hargs).1
    | false =>
      rw [if_neg Bool.false_ne_true]
      simp only [List.nil_append]
      split
      · rename_i hflag
        rw [parseFrom_eq_ok_iff, hmode]
        refine iff_of_false (fun h => Bool.noConfusion h.1) ?_
        rintro ⟨hhost, given, behind, hargs, -⟩
        exact hhost trivial ((List.cons.inj hargs).1.symm.trans hflag)
      · rename_i hflag
        rw [parseFrom_eq_ok_iff, hmode, and_iff_right rfl]
        refine ⟨fun ⟨given, behind, hargs, h⟩ => ?_, fun h => h.2⟩
        refine ⟨fun _ heq => hflag ?_, given, behind, hargs, h⟩
        exact (List.cons.inj hargs).1.trans heq

end Pinger
