import ComputerNetworks.Lib.Flags
import ComputerNetworks.Lib.Number
import ComputerNetworks.Rdtp.Sender

/-!
# The arguments of the sender

`parse_args` of `rdt_sender.cpp`.
-/

open Lib Lib.Bytes Lib.Number

namespace Rdtp

/-! ## Reading -/

inductive Flag where
  | window
  | timeout
  | mss
  deriving DecidableEq, Repr

/-- The numbers of `Options` while the flags are read, with their defaults. -/
structure Settings where
  mss : UInt16 := 1000
  window : UInt32 := 64
  timeoutMs : UInt64 := 200

def Settings.set (s : Settings) : Flag → UInt64 → Settings
  | .window, n => { s with window := n.toUInt32 }
  | .timeout, n => { s with timeoutMs := n }
  | .mss, n => { s with mss := n.toUInt16 }

def Flag.text : Flag → Bytes
  | .window => ofString "-w"
  | .timeout => ofString "-t"
  | .mss => ofString "-m"

def flagOf (arg : Bytes) : Option Flag :=
  if arg = Flag.window.text then some .window
  else if arg = Flag.timeout.text then some .timeout
  else if arg = Flag.mss.text then some .mss
  else none

/-- `rfind("-", 0) == 0`. -/
def dashed (arg : Bytes) : Bool := ofString "-" <+: arg

def flags : Flags.Table Flag UInt64 where
  isOption := dashed
  flagOf := flagOf
  value _ := stoul

structure Arguments where
  host : Bytes
  port : Bytes
  file : Bytes
  opt : Options

/-- How `parse_args` ends without arguments: `usage`, an exception of `std::stoul`, or one of its own. -/
inductive ArgsError where
  | usage
  | badNumber (text : Bytes)
  | refused (what : String)
  deriving DecidableEq, Repr

/-- `parse_args` behind the name of the program. -/
def parseArgs (args : List Bytes) : Except ArgsError Arguments :=
  match Flags.read flags Settings.set {} args with
  | .error (.badValue _ text) => .error (.badNumber text)
  | .error _ => .error .usage
  | .ok (s, [host, port, file]) =>
    match checkOptions s.mss s.window s.timeoutMs with
    | .error what => .error (.refused what)
    | .ok opt => .ok { host, port, file, opt }
  | .ok _ => .error .usage

/-! ## What is accepted -/

theorem parseArgs_eq_ok {args : List Bytes} {a : Arguments} :
    parseArgs args = .ok a ↔ ∃ s, Flags.read flags Settings.set {} args = .ok (s, [a.host, a.port, a.file]) ∧
      checkOptions s.mss s.window s.timeoutMs = .ok a.opt := by
  constructor
  · intro h
    unfold parseArgs at h
    split at h
    · cases h
    · cases h
    · rename_i s host port file hread
      split at h
      · cases h
      · rename_i opt hopt
        cases h
        exact ⟨s, hread, hopt⟩
    · cases h
  · rintro ⟨s, hread, hopt⟩
    unfold parseArgs
    rw [hread]
    dsimp only
    rw [hopt]

theorem settings_given (given : List (Flag × UInt64)) :
    (Flags.settings Settings.set {} given).mss = ((Flags.last given .mss).map UInt64.toUInt16).getD 1000 ∧
      (Flags.settings Settings.set {} given).window =
        ((Flags.last given .window).map UInt64.toUInt32).getD 64 ∧
      (Flags.settings Settings.set {} given).timeoutMs = (Flags.last given .timeout).getD 200 := by
  have hmss := @Flags.settings_last _ _ _ Settings.set _ _ Settings.mss .mss UInt64.toUInt16
    (fun s g v => by cases g <;> rfl) {} given
  have hwindow := @Flags.settings_last _ _ _ Settings.set _ _ Settings.window .window UInt64.toUInt32
    (fun s g v => by cases g <;> rfl) {} given
  have htimeout := @Flags.settings_last _ _ _ Settings.set _ _ Settings.timeoutMs .timeout id
    (fun s g v => by cases g <;> rfl) {} given
  rw [Option.map_id] at htimeout
  exact ⟨hmss, hwindow, htimeout⟩

theorem sets_flag (f : Flag) (n : UInt64) : Flags.Sets flags (f.text, natText n.toNat) (f, n) where
  isOption := show dashed f.text = true by cases f <;> decide
  flag := by cases f <;> rfl
  value := stoul_natText n

/-- A command line for these arguments. -/
def Arguments.commandLine (a : Arguments) : List Bytes :=
  [Flag.mss.text, natText a.opt.mss.toUInt64.toNat, Flag.window.text, natText a.opt.window.toUInt64.toNat,
    Flag.timeout.text, natText a.opt.timeoutMs.toNat, a.host, a.port, a.file]

/-- **Arguments.** What `parse_args` accepts are pairs of a flag and a number, and three arguments behind
them of which the first has no dash in front. The last number counts that a flag was given, cut to the
width of its field. And for all options that pass the checks there is a command line. -/
theorem sender_arguments :
    (∀ args a, parseArgs args = .ok a ↔ ∃ given, Flags.Reads flags args given [a.host, a.port, a.file] ∧
      a.opt.mss = ((Flags.last given .mss).map UInt64.toUInt16).getD 1000 ∧
      a.opt.window = ((Flags.last given .window).map UInt64.toUInt32).getD 64 ∧
      a.opt.timeoutMs = (Flags.last given .timeout).getD 200) ∧
    ∀ a : Arguments, parseArgs a.commandLine = .ok a ↔ dashed a.host = false := by
  have haccepts : ∀ args a, parseArgs args = .ok a ↔
      ∃ given, Flags.Reads flags args given [a.host, a.port, a.file] ∧
        a.opt.mss = ((Flags.last given .mss).map UInt64.toUInt16).getD 1000 ∧
        a.opt.window = ((Flags.last given .window).map UInt64.toUInt32).getD 64 ∧
        a.opt.timeoutMs = (Flags.last given .timeout).getD 200 := by
    intro args a
    rw [parseArgs_eq_ok]
    constructor
    · rintro ⟨s, hread, hopt⟩
      obtain ⟨given, hreads, rfl⟩ := Flags.read_eq_ok_iff.mp hread
      obtain ⟨hmss, hwindow, htimeout⟩ := settings_given given
      obtain ⟨ha, hb, hc⟩ := checkOptions_eq_ok_iff.mp hopt
      exact ⟨given, hreads, ha.trans hmss, hb.trans hwindow, hc.trans htimeout⟩
    · rintro ⟨given, hreads, ha, hb, hc⟩
      obtain ⟨hmss, hwindow, htimeout⟩ := settings_given given
      refine ⟨_, Flags.read_eq_ok_iff.mpr ⟨given, hreads, rfl⟩, checkOptions_eq_ok_iff.mpr ⟨?_, ?_, ?_⟩⟩
      · rw [ha, hmss]
      · rw [hb, hwindow]
      · rw [hc, htimeout]
  refine ⟨haccepts, fun a => ⟨fun h => ?_, fun h => ?_⟩⟩
  · obtain ⟨given, ⟨pairs, -, -, hrest⟩, -⟩ := (haccepts _ a).mp h
    exact hrest a.host rfl
  · have hrest : Flags.Reads flags [a.host, a.port, a.file] [] [a.host, a.port, a.file] :=
      .nil _ (by rintro arg ⟨⟩; exact h)
    refine (haccepts _ a).mpr ⟨_, .cons (sets_flag .mss _) (.cons (sets_flag .window _)
      (.cons (sets_flag .timeout _) hrest)), ?_, ?_, ?_⟩
    · simp [Flags.last]
    · simp [Flags.last]
    · simp [Flags.last]

end Rdtp
