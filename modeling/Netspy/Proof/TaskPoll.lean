import Netspy.Framework.Traverse
import Netspy.Impl.TaskPoll

/-!
# One bad task

The tasks are decoded all at once, after they were popped: one that is not valid takes
the others with it. A task that raises does not, since each has a handler of its own
(`keepsTasks_iff`).
-/

namespace Netspy

namespace TaskPoll

variable {W : Type} (st : Setting) (srv : Services W) (spider : TaskSpider)

theorem putAll_eq_iff (rs : List Request) (b : RequestBuffer W) :
    (putAll st srv rs b).1 = rs ↔ Unbroken st srv rs b := by
  induction rs generalizing b with
  | nil => simp [putAll, Unbroken]
  | cons r rest ih =>
    cases hput : b.put srv st.REQUEST_BUFFER_MAX_CACHED r with
    | mk answer b' =>
      cases answer with
      | error e =>
        cases rest with
        | nil => simp [putAll, Unbroken, hput]
        | cons r' rest => simp [putAll, Unbroken, hput]
      | ok u =>
        have h : (putAll st srv (r :: rest) b).1 = r :: (putAll st srv rest b').1 := by
          simp only [putAll, hput]
        rw [h, List.cons.injEq, ih]
        cases rest with
        | nil => simp [Unbroken]
        | cons r' rest => simp [Unbroken, hput]

theorem passAll_eq_iff (k : Nat) (tasks : List PyVal) (b : RequestBuffer W) :
    (passAll st srv spider k tasks b).1 =
        (tasks.zipIdx k).map (fun (task, k) => (task, (spider.makeRequests k task).requests)) ↔
      AllUnbroken st srv spider k tasks b := by
  induction tasks generalizing k b with
  | nil => simp [passAll, AllUnbroken]
  | cons task rest ih =>
    have h : (passAll st srv spider k (task :: rest) b).1 =
        (task, (putAll st srv (spider.makeRequests k task).requests b).1) ::
          (passAll st srv spider (k + 1) rest (putAll st srv (spider.makeRequests k task).requests b).2).1 := rfl
    rw [h, List.zipIdx_cons, List.map_cons, List.cons.injEq, Prod.mk.injEq, putAll_eq_iff, ih]
    simp [AllUnbroken]

/-- What a poll passes on. -/
theorem poll_passed (s : TaskPoll W) :
    (s.poll st srv spider).passed =
      match s.fetchTasks st spider with
      | .error _ => []
      | .ok tasks => (passAll st srv spider 0 tasks s.buffer).1 := by
  unfold poll
  dsimp only
  cases h : s.fetchTasks st spider with
  | error e => rfl
  | ok tasks =>
    cases tasks with
    | nil => rfl
    | cons task rest =>
      dsimp only
      split
      · rfl
      · rfl

/-- No valid task is lost if and only if there is none, or all that were popped are
valid, and no `put` cuts a task short. -/
theorem keepsTasks_iff (s : TaskPoll W) :
    s.KeepsTasks st srv spider ↔
      s.valid st spider = [] ∨
        (∀ raw ∈ s.fetch st, ∃ task, spider.loadsJson raw = .ok task) ∧
          AllUnbroken st srv spider 0 (s.valid st spider) s.buffer := by
  unfold KeepsTasks
  rw [poll_passed]
  cases h : s.fetchTasks st spider with
  | error e =>
    have hbad : ¬ ∀ raw ∈ s.fetch st, ∃ task, spider.loadsJson raw = .ok task := by
      intro hall
      obtain ⟨tasks, htasks⟩ := Except.exists_mapM_ok hall
      have hok : s.fetchTasks st spider = .ok tasks := htasks
      rw [h] at hok
      cases hok
    simp only [hbad, false_and, or_false]
    rw [eq_comm, List.map_eq_nil_iff, List.zipIdx_eq_nil_iff]
  | ok tasks =>
    have hall : ∀ raw ∈ s.fetch st, ∃ task, spider.loadsJson raw = .ok task := Except.ok_of_mapM h
    have hvalid : s.valid st spider = tasks := Except.filterMap_of_mapM h
    dsimp only
    rw [hvalid, passAll_eq_iff]
    constructor
    · exact fun hunbroken => .inr ⟨hall, hunbroken⟩
    · rintro (rfl | ⟨-, hunbroken⟩)
      · trivial
      · exact hunbroken

/-- The valid task is popped with the other one, and is gone. -/
theorem invalid_takesOthers :
    let srv : Services Unit :=
      { fingerprint := fun r => .ok r.url, add := fun _ w => (.ok true, w), put := fun _ w => (.ok (), w) }
    let spider : TaskSpider :=
      { loadsJson := fun raw => if raw = "1" then .ok (.int 1) else .error "JSONDecodeError"
        taskRequests := fun _ _ => { requests := [{ url := "u" }] } }
    let s : TaskPoll Unit := { source := ["1", "x"], buffer := { pending := [], dropped := [], world := () } }
    s.valid {} spider = [.int 1] ∧ (s.poll {} srv spider).passed = [] ∧ (s.poll {} srv spider).poller.source = [] ∧
      ¬ s.KeepsTasks {} srv spider := by
  decide

end TaskPoll

end Netspy
