import EmbeddedSolidity.Proofs.Plan.Log
import EmbeddedSolidity.Workspace.Lifecycle

/-!
# How making a workspace fails

Whatever the machine answers, a workspace is not made because of a fault of the file system or
because its root is refused. No fault has the text of a refusal, so the errors tell which it was.

* `Workspace.Refusal.not_ofFault` : the two kinds of errors;
* `Workspace.always_create` : what making a workspace asks for and gives.
-/

namespace EmbeddedSolidity

open FileSystem

/-- The error is one of the workspace. -/
def Error.OfWorkspace (e : Error) : Prop :=
  ∃ path message, e = .workspace path message

/-- An error of the workspace ends the run. -/
theorem Error.OfWorkspace.isFatal {e : Error} (he : e.OfWorkspace) : e.isFatal = true := by
  obtain ⟨path, message, rfl⟩ := he
  rfl

/-- The call looks at something or removes it. -/
def Call.Clears : Call → Prop
  | .kind _ | .list _ | .read _ | .removeFile _ | .removeTree _ => True
  | _ => False

theorem Call.Clears.not_starts {call : Call} (hcall : call.Clears) : ¬ call.Starts := by
  cases call <;> first | exact id | cases hcall

namespace Workspace

variable {e : Error} {root : String}

/-- The error of a root that is refused. -/
def Refusal (root : String) (e : Error) : Prop :=
  e = notDirectory root ∨ e = notWorkspace root

/-- The error of a fault of the file system. -/
def OfFault (e : Error) : Prop :=
  ∃ path f, e = .workspace path (Fault.text f)

theorem OfFault.ofWorkspace (he : OfFault e) : e.OfWorkspace :=
  let ⟨path, f, he⟩ := he
  ⟨path, f.text, he⟩

theorem Refusal.ofWorkspace (he : Refusal root e) : e.OfWorkspace :=
  he.elim (fun he => ⟨root, _, he⟩) fun he => ⟨root, _, he⟩

/-- No fault has the text of a refusal. -/
theorem Refusal.not_ofFault (hrefusal : Refusal root e) : ¬ OfFault e := by
  rintro ⟨path, f, rfl⟩
  rcases hrefusal with he | he <;> cases f <;> exact absurd (Error.workspace.inj he).2 (by decide)

/-! ## Calls and results -/

theorem ofFault_of_fault {α : Type} {path : String} {r : Except Fault α}
    (hr : fault path r = .error e) : OfFault e := by
  cases r with
  | ok a => cases hr
  | error f => exact ⟨path, f, (Except.error.inj hr).symm⟩

theorem always_attempt {α : Type} {P : Call → Prop} {p : Plan (Except Fault α)} (path : String)
    (hp : p.Always P fun _ => True) :
    (attempt path p).Always P fun r => ∀ e, r = .error e → OfFault e :=
  Plan.always_bind hp fun _ _ => Plan.always_pure fun _ => ofFault_of_fault

theorem always_removeExisting (root : String) : (removeExisting root).Always
    Call.Clears fun r => ∀ e, r = .error e → OfFault e := by
  refine Plan.always_bind (Plan.always_call trivial) fun kind _ => ?_
  split
  · exact Plan.always_pure nofun
  · exact Plan.always_pure fun e he => ⟨root, _, (Except.error.inj he).symm⟩
  · exact always_attempt root (Plan.always_call (c := .removeTree root) trivial)
  · exact always_attempt root (Plan.always_call (c := .removeFile root) trivial)

theorem always_hasGeneratedManifest {P : Call → Prop} (w : Workspace)
    (hread : P (.read w.manifestPath)) : w.hasGeneratedManifest.Always P fun _ => True :=
  Plan.always_bind (Plan.always_readText hread) fun text _ => by
    cases text <;> exact Plan.always_pure trivial

theorem always_removePrevious (w : Workspace) : w.removePrevious.Always
    Call.Clears fun r => ∀ e, r = .error e → OfFault e ∨ Refusal w.root e := by
  have hfault : (removeExisting w.root).Always Call.Clears fun r =>
      ∀ e, r = .error e → OfFault e ∨ Refusal w.root e :=
    (always_removeExisting w.root).mono fun _ hr e he => Or.inl (hr e he)
  refine Plan.always_bind (Plan.always_call trivial) fun kind _ => ?_
  split
  · exact Plan.always_pure nofun
  · exact Plan.always_pure fun e he => Or.inl ⟨w.root, _, (Except.error.inj he).symm⟩
  · refine Plan.always_bind (Plan.always_call trivial) fun listed _ => ?_
    split
    · exact Plan.always_pure fun e he => Or.inl ⟨w.root, _, (Except.error.inj he).symm⟩
    · split
      · exact hfault
      · refine Plan.always_bind (always_hasGeneratedManifest w trivial) fun known _ => ?_
        split
        · exact hfault
        · exact Plan.always_pure fun e he => Or.inr (Or.inr (Except.error.inj he).symm)
  · exact Plan.always_pure fun e he => Or.inr (Or.inl (Except.error.inj he).symm)

theorem always_build (w : Workspace) (solc : String) : (w.build solc).Always
    (fun call => ¬ call.Starts) fun r =>
      (∀ e, r = .error e → OfFault e) ∧ ∀ w', r = .ok w' → w' = w := by
  have hforward : ∀ e : Error, (∀ e', (.error e : Except Error Unit) = .error e' → OfFault e') →
      (∀ e', (.error e : Except Error Workspace) = .error e' → OfFault e') ∧
        ∀ w', (.error e : Except Error Workspace) = .ok w' → w' = w :=
    fun e he => ⟨fun e' heq => he e' (congrArg Except.error (Except.error.inj heq)), nofun⟩
  refine Plan.always_andThen
    (always_attempt _ (Plan.always_call (c := .makeDirectories w.root) id)) hforward fun _ _ => ?_
  refine Plan.always_andThen
    (always_attempt _ (Plan.always_call (c := .write w.manifestPath _) id)) hforward fun _ _ => ?_
  refine Plan.always_andThen
    (always_attempt _ (Plan.always_call (c := .makeDirectories w.sourceDirectory) id)) hforward
    fun _ _ => ?_
  exact Plan.always_pure ⟨nofun, fun w' hw => (Except.ok.inj hw).symm⟩

/-- What is at the root is cleared by looking and removing only. -/
theorem always_clear (c : Config) :
    (if c.isDefaultRoot then removeExisting c.root else (⟨c.root⟩ : Workspace).removePrevious).Always
      Call.Clears fun r => ∀ e, r = .error e → OfFault e ∨ Refusal c.root e := by
  split
  · exact (always_removeExisting c.root).mono fun _ hr e he => Or.inl (hr e he)
  · exact always_removePrevious ⟨c.root⟩

/-- Making a workspace starts no program. It is made at the root of the configuration, or there was
a fault or a refusal. -/
theorem always_create (c : Config) : (create c).Always (fun call => ¬ call.Starts) fun r =>
    (∀ e, r = .error e → OfFault e ∨ Refusal c.root e) ∧ ∀ w, r = .ok w → w = ⟨c.root⟩ := by
  refine Plan.always_andThen ((always_clear c).weaken fun _ => Call.Clears.not_starts)
    (fun e he => ⟨fun e' heq => he e' (congrArg Except.error (Except.error.inj heq)), nofun⟩)
    fun _ _ => (always_build ⟨c.root⟩ c.solc).mono fun _ hr =>
      ⟨fun e he => Or.inl (hr.1 e he), hr.2⟩

theorem always_destroy {P : Call → Prop} (w : Workspace) (hremove : P (.removeTree w.root)) :
    w.destroy.Always P fun _ => True :=
  Plan.always_bind (Plan.always_call hremove) fun removed _ => by
    split <;> exact Plan.always_pure trivial

end Workspace

end EmbeddedSolidity
