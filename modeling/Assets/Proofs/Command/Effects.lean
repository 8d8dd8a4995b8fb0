import Assets.Proofs.Command.Scheduling

/-!
# What commands leave alone

`Ends` is about commands that are done.  A command that gives up leaves a console as well.

* `Keeps` says of both ends that a part of the console is what it was before: the disk, say, or
  what has been announced.  It is closed under steps in a row, so that a command keeps what each of
  its steps keeps.
* `KeepsOnFailure` says so of the one end at which a command gives up, and excuses some reports.
  It is put together in two ways: from a step that keeps the part and a rest that keeps it on
  failure (`Keeps.bind_onFailure`), and from a first part that keeps it on failure and a rest that
  cannot give up (`KeepsOnFailure.bind_modify`).

The commands that only look at the disk keep every part that reports leave alone.
-/

namespace Assets.Command

variable {α β γ : Type} {part : Console → γ} {excused : Report → Prop}

/-- However a command ends, it leaves a part of the console as it was. -/
def Keeps (part : Console → γ) (command : Command α) : Prop :=
  ∀ console, part (command.run.run console).2 = part console

/-- If a command gives up, it leaves a part of the console as it was, unless its report is an
excuse. -/
def KeepsOnFailure (excused : Report → Prop) (part : Console → γ) (command : Command α) : Prop :=
  ∀ console report after, command.run.run console = (.error report, after) →
    excused report ∨ part after = part console

/-! ## Steps -/

theorem Keeps.bind {first : Command α} {rest : α → Command β} (hfirst : first.Keeps part)
    (hrest : ∀ a, (rest a).Keeps part) : (first >>= rest).Keeps part := by
  intro console
  have hbetween := hfirst console
  rw [run_bind]
  cases hrun : first.run.run console with
  | mk result between =>
      rw [hrun] at hbetween
      cases result with
      | ok a => exact (hrest a between).trans hbetween
      | error report => exact hbetween

theorem Keeps.onFailure {command : Command α} (h : command.Keeps part) :
    command.KeepsOnFailure excused part := by
  intro console report after hrun
  have hpart := h console
  rw [hrun] at hpart
  exact .inr hpart

theorem Keeps.bind_onFailure {first : Command α} {rest : α → Command β} (hfirst : first.Keeps part)
    (hrest : ∀ a, (rest a).KeepsOnFailure excused part) :
    (first >>= rest).KeepsOnFailure excused part := by
  intro console report after hrun
  have hbetween := hfirst console
  rw [run_bind] at hrun
  cases hfront : first.run.run console with
  | mk result between =>
      rw [hfront] at hrun hbetween
      cases result with
      | ok a =>
          rw [← hbetween]
          exact hrest a between report after hrun
      | error stop =>
          cases hrun
          exact .inr hbetween

theorem KeepsOnFailure.bind_modify {first : Command α} (hfirst : first.KeepsOnFailure excused part)
    (change : α → Console → Console) :
    (first >>= fun a => modify (change a)).KeepsOnFailure excused part := by
  intro console report after hrun
  rw [run_bind] at hrun
  cases hfront : first.run.run console with
  | mk result between =>
      rw [hfront] at hrun
      cases result with
      | ok a => cases hrun
      | error stop =>
          cases hrun
          exact hfirst console report after hfront

theorem keeps_pure (a : α) : (pure a : Command α).Keeps part := fun _ => rfl

theorem keeps_disk : disk.Keeps part := fun _ => rfl

theorem keeps_settle (result : Except Report α) : (settle result).Keeps part := fun _ => rfl

theorem keeps_settleFailure (attempt : Option Attempt) (result : Except Failure α) :
    (settleFailure attempt result).Keeps part := by
  cases result <;> exact keeps_settle _

theorem keeps_settleFault (attempt : Attempt) (result : Except Disk.Fault α) :
    (settleFault attempt result).Keeps part := by
  cases result <;> exact keeps_settle _

theorem keeps_readBlob (path : Path) : (readBlob path).Keeps part :=
  keeps_disk.bind fun _ => keeps_settleFault _ _

theorem keeps_compiledFiles (input : Path) (outcome : Outcome FileSet) :
    (compiledFiles input outcome).Keeps part := by
  cases outcome with
  | value files => exact keeps_pure files
  | failure e => exact keeps_settleFailure _ _
  | panic => exact keeps_settleFailure _ _
  | hang => exact keeps_settleFailure _ _

/-! ## Reading -/

section Reading

variable (hreports : ∀ diagnostics, (reportAll diagnostics).Keeps part)

include hreports

theorem keeps_readTree (root : Path) (hidden : Bool) : (readTree root hidden).Keeps part :=
  keeps_disk.bind fun _ => (hreports _).bind fun _ => keeps_settle _

theorem keeps_decode (blob : String) : (decode blob).Keeps part :=
  (hreports _).bind fun _ => keeps_pure _

theorem keeps_source (input : Path) (hidden : Bool) : (source input hidden).Keeps part := by
  refine keeps_disk.bind fun found => ?_
  split
  · exact (keeps_readTree hreports input hidden).bind fun _ => keeps_pure _
  · exact (keeps_readBlob input).bind (keeps_decode hreports)

end Reading

/-! ## Handing over -/

theorem keepsOnFailure_handOver {target : Target}
    (hdeliver : ∀ archive, (deliver archive target).KeepsOnFailure excused part) (input : Path)
    (outcome : Outcome FileSet) : (handOver input target outcome).KeepsOnFailure excused part :=
  (keeps_compiledFiles input outcome).bind_onFailure fun _ => (hdeliver _).bind_modify _

end Assets.Command
