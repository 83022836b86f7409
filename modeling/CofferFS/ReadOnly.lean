import CofferFS.Effects
import CofferFS.Durability

/-!
# Read-only mounts

The kernel keeps writes away from a read-only mount; the callbacks refuse them as well, before they
look at anything else. `readOnly_mount` says that they miss none of them and refuse nothing more: a
run of requests on read-only mounts leaves the container as it is, and is answered as on a writable
mount, but for the requests that could write.
-/

namespace CofferFS

open Script

/-- The requests that change something, and the opens that ask for it. -/
def Request.writes : Request → Bool
  | .setattr .. | .mkdir .. | .create .. | .symlink .. | .link .. | .unlink .. | .rmdir ..
  | .rename .. | .write .. | .setxattr .. | .removexattr .. => true
  | .open _ flags => flags &&& 3 != 0
  | _ => false

/-- The same, on a writable mount. -/
def Env.writable (env : Env) : Env := { env with mount := { env.mount with readOnly := false } }

section ReadOnly

variable {env : Env} {req : Request} {db : Db} {rs : List (Env × Request)}

/-- A callback that only reads. -/
theorem step_of_readOnly (h : (handle env.mount env.now req).ReadOnly) : (step env req db).2 = db :=
  h db _ _ (step_yields env req db)

/-- What does not write leaves the container as it is, on any mount. -/
theorem step_reading (hreads : req.writes = false) : (step env req db).2 = db := by
  apply step_of_readOnly
  cases req with
  | lookup parent name => exact readOnly_lookup _ _
  | getattr ino => exact readOnly_getattr _
  | readlink ino => exact readOnly_readlink _
  | «open» ino flags => exact readOnly_open _ _ _
  | read fh offset size => exact readOnly_read _ _ _
  | flush fh => exact readOnly_pure _
  | fsync fh => exact readOnly_pure _
  | release fh => exact readOnly_pure _
  | opendir ino => exact readOnly_pure _
  | readdir ino offset room => exact readOnly_readdir _ _ _
  | statfs => exact readOnly_statfs _
  | getxattr ino name size => exact readOnly_getxattr _ _ _ _
  | listxattr ino size => exact readOnly_listxattr _ _ _
  | access ino => exact readOnly_pure _
  | _ => cases hreads

/-- What writes is refused before anything else. -/
theorem step_refused (hro : env.mount.readOnly = true) (hwrites : req.writes = true) :
    step env req db = (.error (.error .erofs), db) := by
  have hrefused {k : Unit → Call Answer} {c : Bool} (hc : c = true)
      (h : handle env.mount env.now req = refuseIf c .erofs >>= k) :
      step env req db = (.error (.error .erofs), db) := by
    rw [step, h, run_bind_of_error (run_refuseIf_true hc)]
  cases req with
  | «open» ino flags => exact hrefused (by rw [hro]; exact hwrites) rfl
  | setattr | mkdir | create | symlink | link | unlink | rmdir | rename | write | setxattr
  | removexattr => exact hrefused hro rfl
  | _ => cases hwrites

/-- What does not write does not ask whether the mount is writable. -/
theorem step_writable (hreads : req.writes = false) :
    step env req db = step env.writable req db := by
  cases req with
  | «open» ino flags =>
    have hopen (ro : Bool) : (ro && flags &&& 3 != 0) = false := by
      rw [show (flags &&& 3 != 0) = false from hreads, Bool.and_false]
    rw [step, step, handle, handle, «open», «open», hopen, hopen]
    rfl
  | lookup | getattr | readlink | read | flush | fsync | release | opendir | readdir | statfs
  | getxattr | listxattr | access => rfl
  | _ => cases hreads

/-- **A run of requests on read-only mounts leaves the container as it is. Those that could write
are refused with `EROFS`; all others are answered as on a writable mount.** -/
theorem readOnly_mount (hro : ∀ r ∈ rs, r.1.mount.readOnly = true) (db : Db) :
    Durability.stateAfter db rs = db ∧
      ∀ r ∈ rs, (step r.1 r.2 db).1 =
        if r.2.writes then .error (.error .erofs) else (step r.1.writable r.2 db).1 := by
  have hstep : ∀ r ∈ rs, (step r.1 r.2 db).2 = db := by
    intro r hr
    cases hwrites : r.2.writes with
    | true => rw [step_refused (hro r hr) hwrites]
    | false => exact step_reading hwrites
  refine ⟨?_, fun r hr => ?_⟩
  · clear hro
    induction rs with
    | nil => rfl
    | cons r rs ih =>
      rw [Durability.stateAfter, List.foldl_cons, Durability.serve,
        hstep r List.mem_cons_self]
      exact ih fun r hr => hstep r (List.mem_cons_of_mem _ hr)
  · cases hwrites : r.2.writes with
    | true => rw [step_refused (hro r hr) hwrites, if_pos rfl]
    | false =>
      rw [step_writable hwrites]
      exact (if_neg Bool.false_ne_true).symm

/-- A read-only mount. -/
def Env.sealed : Env := .quiet { Mount.plain with readOnly := true } 0

theorem readOnly_mount_oneByte :
    Durability.stateAfter .oneByte [(.sealed, .read 2 0 9), (.sealed, .unlink rootIno nameA)] =
      .oneByte := by
  refine (readOnly_mount ?_ .oneByte).1
  simp [Env.sealed, Env.quiet]

end ReadOnly

end CofferFS
