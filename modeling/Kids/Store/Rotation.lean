import Kids.Lib.Run
import Kids.Store.LogPath

/-!
`FileStore::Cron` and `FileStore::DoAddMessage` of a store that is not a secondary one: which file a message goes
to while files are rotated.
-/

namespace Kids

-- a message that `DoAddMessage` has stored
structure Stored where
  unixtime : Nat
  topic : Bytes
  file : Bytes

/--
`files` is `topic_file_` with the names of the files, and `stored` is history.
-/
structure RotatingStore where
  log : LogStore
  flushInterval : Int
  isOpen : Bool
  lastRotate : Int
  lastFlush : Int
  files : List (Bytes × Bytes)
  unixtime : Nat
  stored : List Stored

/--
What a call finds outside: what `time` gives, and whether directories are there or can be made.
-/
structure Outside where
  now : Int
  makePath : Bytes → Bool

namespace RotatingStore

variable (localtime : Int → Tm)

def system (s : RotatingStore) (outside : Outside) : System :=
  ⟨localtime, outside.now, s.unixtime, outside.makePath⟩

-- after the first `Open`
def opened (log : LogStore) (flushInterval now : Int) (unixtime : Nat) (isOpen : Bool) : RotatingStore where
  log := log
  flushInterval := flushInterval
  isOpen := isOpen
  lastRotate := now
  lastFlush := now
  files := []
  unixtime := unixtime
  stored := []

def close (s : RotatingStore) : RotatingStore :=
  if s.isOpen then { s with files := [], isOpen := false } else s

def open_ (s : RotatingStore) (outside : Outside) : RotatingStore :=
  { s.close with
    isOpen := outside.makePath (Bytes.cstr (findRoot s.log.path))
    lastRotate := outside.now
    lastFlush := outside.now
  }

def cron (s : RotatingStore) (outside : Outside) : RotatingStore :=
  let t : Int := s.unixtime
  if s.isOpen then
    if s.log.rotateInterval ≠ -1 ∧ t.tmod s.log.rotateInterval = 0 ∧ s.lastRotate < t then
      s.open_ outside
    else if s.flushInterval ≠ -1 ∧ s.flushInterval ≤ t - s.lastFlush then
      { s with lastFlush := t }
    else
      s
  else
    s

-- the file stays open also if `Write` fails
def write (s : RotatingStore) (topic file : Bytes) (written : Bool) : RotatingStore :=
  if written then { s with stored := s.stored ++ [⟨s.unixtime, topic, file⟩] } else s

def addMessage (s : RotatingStore) (outside : Outside) (topic : Bytes) (created written : Bool) : RotatingStore :=
  match s.files.lookup topic with
  | some file => s.write topic file written
  | none =>
    match s.log.openFile (s.system localtime outside) topic with
    | none => s
    | some file => if created then { s with files := (topic, file) :: s.files }.write topic file written else s

inductive Event
  -- `Storer::Cron`, so many seconds after the last one
  | tick (seconds : Nat) (outside : Outside)
  -- whether `fopen` and `Write` succeed
  | addMessage (outside : Outside) (topic : Bytes) (created written : Bool)

def step (s : RotatingStore) : Event → Option RotatingStore
  | .tick seconds outside => some ({ s with unixtime := s.unixtime + seconds }.cron outside)
  | .addMessage outside topic created written => some (s.addMessage localtime outside topic created written)

end RotatingStore

namespace LogStore

-- where the interval begins that a time is in
def intervalStart (s : LogStore) (u : Nat) : Int :=
  u - (u : Int).tmod s.rotateInterval

/--
The file that `MakeName` names for the interval of a time.
-/
def intervalFile (s : LogStore) (localtime : Int → Tm) (u : Nat) (topic : Bytes) : Bytes :=
  s.fullname (localtime (s.intervalStart u)) (Bytes.cstr topic)

end LogStore

namespace RotatingStore

variable (localtime : Int → Tm)

def InInterval (s : RotatingStore) : Prop :=
  ∀ m ∈ s.stored, m.file = s.log.intervalFile localtime m.unixtime m.topic

/--
A tick that comes in another interval than the last one comes in its first second and later than the last rotation,
or no file is open; and no file is opened before the first interval has passed.
-/
def OnTime (s : RotatingStore) : Event → Prop
  | .tick seconds _ =>
    s.log.intervalStart (s.unixtime + seconds) = s.log.intervalStart s.unixtime ∨ s.files = [] ∨
      s.isOpen = true ∧ ((s.unixtime + seconds : Nat) : Int).tmod s.log.rotateInterval = 0 ∧
        s.lastRotate < (s.unixtime + seconds : Nat)
  | .addMessage _ topic _ _ => s.files.lookup topic = none → s.log.rotateInterval ≤ s.unixtime

variable {localtime} {s : RotatingStore} {log : LogStore}

/--
The open files are those of the present interval.
-/
structure Current (localtime : Int → Tm) (log : LogStore) (s : RotatingStore) : Prop where
  log_eq : s.log = log
  files : ∀ p ∈ s.files, p.2 = log.intervalFile localtime s.unixtime p.1
  stored : InInterval localtime s

theorem files_open (s : RotatingStore) (outside : Outside) (hopen : s.isOpen = true)
    : (s.open_ outside).files = [] := by
  unfold open_ close
  rw [if_pos hopen]

theorem cron_frame (s : RotatingStore) (outside : Outside)
    : (s.cron outside).log = s.log ∧ (s.cron outside).unixtime = s.unixtime ∧ (s.cron outside).stored = s.stored ∧
        ((s.cron outside).files = s.files ∨ (s.cron outside).files = []) := by
  unfold cron
  dsimp only
  split
  . next hopen =>
    split
    . have hclose : s.close = { s with files := [], isOpen := false } := if_pos hopen
      unfold open_
      rw [hclose]
      exact ⟨rfl, rfl, rfl, .inr rfl⟩
    . split
      . exact ⟨rfl, rfl, rfl, .inl rfl⟩
      . exact ⟨rfl, rfl, rfl, .inl rfl⟩
  . exact ⟨rfl, rfl, rfl, .inl rfl⟩

theorem files_cron_rotate (s : RotatingStore) (outside : Outside) (hopen : s.isOpen = true)
    (hpos : 0 < s.log.rotateInterval) (hmod : (s.unixtime : Int).tmod s.log.rotateInterval = 0)
    (hlater : s.lastRotate < s.unixtime) : (s.cron outside).files = [] := by
  unfold cron
  dsimp only
  rw [if_pos hopen, if_pos]
  . apply files_open s outside hopen
  . exact ⟨by omega, hmod, hlater⟩

theorem Current.tick (h : Current localtime log s) (hpos : 0 < log.rotateInterval)
    (honTime : OnTime s (.tick seconds outside))
    : Current localtime log ({ s with unixtime := s.unixtime + seconds }.cron outside) := by
  obtain ⟨hlog, htime, hstored, hfiles⟩ := cron_frame { s with unixtime := s.unixtime + seconds } outside
  constructor
  . rw [hlog]
    apply h.log_eq
  . intro p hp
    rw [htime]
    obtain hstart | hnone | ⟨hopen, hmod, hlater⟩ := honTime
    . -- the interval is the same, and so are the names
      have hmem : p ∈ s.files := by
        cases hfiles with
        | inl hsame =>
          rw [hsame] at hp
          apply hp
        | inr hnil =>
          rw [hnil] at hp
          cases hp
      rw [h.files p hmem]
      unfold LogStore.intervalFile
      rw [← h.log_eq]
      dsimp only
      rw [hstart]
    . have hnil : (cron { s with unixtime := s.unixtime + seconds } outside).files = [] := by
        cases hfiles with
        | inl hsame => exact hsame.trans hnone
        | inr hnil => exact hnil
      rw [hnil] at hp
      cases hp
    . rw [files_cron_rotate { s with unixtime := s.unixtime + seconds } outside hopen _ hmod hlater] at hp
      . cases hp
      . rw [← h.log_eq] at hpos
        apply hpos
  . intro m hm
    rw [hstored] at hm
    rw [hlog]
    apply h.stored m hm

theorem Current.write (h : Current localtime log s) (hfile : file = log.intervalFile localtime s.unixtime topic)
    (written : Bool) : Current localtime log (s.write topic file written) := by
  unfold RotatingStore.write
  split
  . constructor
    . apply h.log_eq
    . apply h.files
    . unfold InInterval
      rw [List.forall_mem_append, List.forall_mem_singleton]
      constructor
      . apply h.stored
      . rw [h.log_eq]
        apply hfile
  . apply h

theorem fileTime_eq (s : RotatingStore) (outside : Outside) (hpos : 0 < s.log.rotateInterval)
    : s.log.fileTime (s.system localtime outside) = s.log.intervalStart s.unixtime :=
  if_pos hpos

theorem intervalStart_pos {log : LogStore} (hpos : 0 < log.rotateInterval) (hpast : log.rotateInterval ≤ (u : Nat))
    : log.intervalStart u ≠ 0 := by
  have hless := Int.tmod_lt_of_pos (u : Int) hpos
  unfold LogStore.intervalStart
  omega

theorem openFile_interval (hpos : 0 < s.log.rotateInterval) (hpast : s.log.rotateInterval ≤ s.unixtime)
    (h : s.log.openFile (s.system localtime outside) topic = some file)
    : file = s.log.intervalFile localtime s.unixtime topic := by
  rw [LogStore.openFile_eq_some h]
  unfold LogStore.intervalFile LogStore.tm
  rw [fileTime_eq s outside hpos, if_neg (intervalStart_pos hpos hpast)]
  rfl

theorem mem_of_lookup {files : List (Bytes × Bytes)} (h : files.lookup topic = some file) : (topic, file) ∈ files := by
  induction files with
  | nil => cases h
  | cons p files ih =>
    rw [List.lookup_cons] at h
    split at h
    . next heq =>
      cases h
      rw [eq_of_beq heq]
      apply List.mem_cons_self
    . apply List.mem_cons_of_mem
      apply ih h

theorem Current.addMessage (h : Current localtime log s) (hpos : 0 < log.rotateInterval) (outside : Outside)
    (created written : Bool) (hpast : s.files.lookup topic = none → log.rotateInterval ≤ s.unixtime)
    : Current localtime log (s.addMessage localtime outside topic created written) := by
  unfold RotatingStore.addMessage
  split
  . next file hlookup =>
    apply h.write
    apply h.files _ (mem_of_lookup hlookup)
  . next hlookup =>
    split
    . apply h
    . next file hopen =>
      split
      . have hfile : file = log.intervalFile localtime s.unixtime topic := by
          rw [← h.log_eq]
          apply openFile_interval _ _ hopen
          . rw [h.log_eq]
            apply hpos
          . rw [h.log_eq]
            apply hpast hlookup
        have hfiles : Current localtime log { s with files := (topic, file) :: s.files } := by
          constructor
          . apply h.log_eq
          . rw [List.forall_mem_cons]
            exact ⟨hfile, h.files⟩
          . apply h.stored
        apply hfiles.write hfile
      . apply h

theorem Current.step (h : Current localtime log s) (hpos : 0 < log.rotateInterval) (e : Event) (honTime : OnTime s e)
    : ∃ t, s.step localtime e = some t ∧ Current localtime log t := by
  cases e with
  | tick seconds outside => exact ⟨_, rfl, h.tick hpos honTime⟩
  | addMessage outside topic created written =>
    refine ⟨_, rfl, h.addMessage hpos outside created written ?_⟩
    rw [← h.log_eq]
    apply honTime

/--
Every message goes to the file of its interval, provided that the rotations are not missed and no file is opened
before the first interval has passed.
-/
theorem inInterval_of_onTime (localtime : Int → Tm) (log : LogStore) (hpos : 0 < log.rotateInterval)
    (flushInterval now : Int) (unixtime : Nat) (isOpen : Bool) (events : List Event)
    (h : Run.Meets (step localtime) OnTime (opened log flushInterval now unixtime isOpen) events)
    : Run.Along (step localtime) (InInterval localtime) (opened log flushInterval now unixtime isOpen) events := by
  have hinit : Current localtime log (opened log flushInterval now unixtime isOpen) :=
    ⟨rfl, List.forall_mem_nil _, List.forall_mem_nil _⟩
  have hcurrent : Run.Along (step localtime) (Current localtime log) (opened log flushInterval now unixtime isOpen) events := by
    apply Run.Along.of_meets (fun _ => True) hinit (fun _ _ => trivial) h
    intro s e hs _ honTime
    apply hs.step hpos e honTime
  exact hcurrent.mono fun _ hs => hs.stored

theorem slash_hourPath : ([47, 108, 111, 103, 47] : Bytes).getLast? = some slash := rfl

theorem nul_hourPath : Bytes.nul ∉ ([47, 108, 111, 103, 47] : Bytes) := by
  decide

theorem nul_hourName : Bytes.nul ∉ ([91, 116, 105, 109, 101, 93] : Bytes) := by
  decide

-- the templates `/log/` and `[time]`, rotated every hour
def hourLog : LogStore where
  path := [47, 108, 111, 103, 47]
  name := [91, 116, 105, 109, 101, 93]
  rotateInterval := 3600
  slash_path := slash_hourPath
  nul_path := nul_hourPath
  nul_name := nul_hourName

-- a calendar that begins at midnight
def clock (t : Int) : Tm :=
  ⟨70, 0, 1, t / 3600, t / 60 % 60, t % 60⟩

def inOrder : Outside :=
  ⟨0, fun _ => true⟩

theorem inInterval_of_onTime_hours
    : Run.Meets (step clock) OnTime (opened hourLog (-1) 0 3600 true)
          [.addMessage inOrder [97] true true, .tick 3600 inOrder, .addMessage inOrder [97] true true] ∧
        Run.Along (step clock) (InInterval clock) (opened hourLog (-1) 0 3600 true)
          [.addMessage inOrder [97] true true, .tick 3600 inOrder, .addMessage inOrder [97] true true] := by
  have hmeets : Run.Meets (step clock) OnTime (opened hourLog (-1) 0 3600 true)
      [.addMessage inOrder [97] true true, .tick 3600 inOrder, .addMessage inOrder [97] true true] := by
    refine ⟨fun _ => by decide, ?_⟩
    rintro s ⟨⟩
    refine ⟨.inr (.inr ⟨rfl, rfl, by decide⟩), ?_⟩
    rintro t ⟨⟩
    exact ⟨fun _ => by decide, fun _ _ => trivial⟩
  exact ⟨hmeets, inInterval_of_onTime clock hourLog (by decide) (-1) 0 3600 true _ hmeets⟩

theorem intervalFile_hourLog (u : Nat) (topic : Bytes)
    : hourLog.intervalFile clock u topic = hourLog.path ++ (clock (hourLog.intervalStart u)).time := by
  have hmem (tm : Tm) (topic : Bytes) : (timeMark, tm.time) ∈ texts tm topic := .tail _ (.head _)
  have hname (tm : Tm) (topic : Bytes) : makeName hourLog.name tm topic = tm.time := by
    rw [makeName_eq_expand, ← List.append_nil hourLog.name]
    apply (Template.expand_mark (marks_texts tm topic) (hmem tm topic) []).trans
    rw [Template.expand, List.append_nil]
  unfold LogStore.intervalFile LogStore.fullname
  rw [hname]
  rfl

theorem addMessage_created (hlookup : s.files.lookup topic = none)
    (hopen : s.log.openFile (s.system localtime outside) topic = some file) (written : Bool)
    : s.addMessage localtime outside topic true written =
        { s with files := (topic, file) :: s.files }.write topic file written := by
  unfold addMessage
  rw [hlookup]
  dsimp only
  rw [hopen]
  rfl

-- a message at 01:00:00, a tick at 02:00:05 and a message again
theorem inInterval_fails_late
    : ¬Run.Along (step clock) (InInterval clock) (opened hourLog (-1) 0 3600 true)
        [.addMessage inOrder [97] true true, .tick 3605 inOrder, .addMessage inOrder [97] true true] := by
  rintro ⟨-, s, hfirst, -, t, htick, -, u, hlast, hright⟩
  have hopen : hourLog.openFile ((opened hourLog (-1) 0 3600 true).system clock inOrder) [97] =
      some (hourLog.intervalFile clock 3600 [97]) := by
    rw [LogStore.openFile_eq]
    rfl
  unfold step at hfirst
  dsimp only at hfirst
  rw [addMessage_created rfl hopen] at hfirst
  cases hfirst
  cases htick
  cases hlast
  have hsame : hourLog.intervalFile clock 3600 [97] = hourLog.intervalFile clock 7205 [97] :=
    hright ⟨7205, [97], hourLog.intervalFile clock 3600 [97]⟩ (.tail _ (.head _))
  rw [intervalFile_hourLog, intervalFile_hourLog] at hsame
  have htimes := List.append_cancel_left hsame
  simp [clock, hourLog, LogStore.intervalStart, Tm.time, padded, Bytes.decimal_eq] at htimes

end RotatingStore
end Kids
