import WebServer.Ftp.Authentication
import WebServer.Ftp.Confinement
import WebServer.Ftp.Transfer

/-!
# Ftp/Course — the course of a session

A session logs in, takes commands, receives uploads in between, and is over.  Whatever is sent to
it, nothing is asked of the system and no file changes unless the first message names a user of the
user file and their password (`admitted_of_run`).  The files change by what is uploaded, created and
removed, one after the other, and each holds what has been received since it was opened last, if it
has not been removed since (`uploads_of_run`).
-/

namespace WebServer.Ftp

open Utility (ReadResult WriteResult)
open Program

/-! ## Where a session stands -/

/-- Where a session stands. -/
inductive Stage
  | login
  | command
  | upload (file : Option ℕ)
  | over

def Session.stage (s : Session) : Stage :=
  match s.processState with
  | .login => .login
  | .parse => .command
  | .upload => .upload s.currentOpenFile
  | .quit => .over

/-- What a command other than `upload` does to a file. -/
def FileEvent.OfCommand : FileEvent → Prop
  | .created _ | .removed _ => True
  | .opened _ | .received _ _ => False

/-- **One read**, for the client that is served. -/
inductive Turn : Stage → List FileEvent → Stage → Prop
  | refuse : Turn .login [] .over
  | enter : Turn .login [] .command
  | command (es : List FileEvent) (h : ∀ e ∈ es, e.OfCommand) : Turn .command es .command
  | open (f : ℕ) : Turn .command [.opened f] (.upload (some f))
  | fail : Turn .command [] (.upload none)
  | leave : Turn .command [] .over
  | receive (f : ℕ) (part : Bytes) :
      Turn (.upload (some f)) [.received f part] (.upload (some f))
  | finish (f : Option ℕ) : Turn (.upload f) [] .command
  | break (f : Option ℕ) : Turn (.upload f) [] .over
  | over : Turn .over [] .over

theorem Turn.ne_login {stage stage' : Stage} {es : List FileEvent} (h : Turn stage es stage') :
    stage' ≠ .login := by
  rintro rfl
  cases h

/-! ## What a command leads to -/

section Parse

variable {os : Os}

/-- Nothing to keep. -/
theorem keeps_any {α : Type} (x : Program Session α) :
    Keeps (fun _ => True) x fun _ => True := fun _ _ => ⟨trivial, fun _ _ => trivial⟩

theorem answer_parse (res : Bytes) : Keeps (fun _ => True) (answer res) (· = .parse) :=
  (keeps_any _).bind fun _ _ => Keeps.pure rfl

theorem download_parse : Keeps (fun _ => True) (download os) (· = .parse) := by
  refine (keeps_any _).bind fun completePath _ => (keeps_any _).bind fun parameter _ => ?_
  refine (keeps_any _).bind fun file _ => ?_
  cases file with
  | none => exact (keeps_any _).bind fun _ _ => Keeps.pure rfl
  | some f =>
    refine (keeps_any _).bind fun content _ => (keeps_any _).bind fun _ _ => ?_
    refine (keeps_any _).bind fun _ _ => (keeps_any _).bind fun _ _ => ?_
    exact Keeps.pure rfl

/-- **Behind a command other than `upload` and `quit`** the next one is awaited. -/
theorem execute_parse {command : Command} (hu : ∀ file, command ≠ .upload file)
    (hq : command ≠ .quit) : Keeps (fun _ => True) (execute os command) (· = .parse) := by
  cases command with
  | ls dir =>
    exact (keeps_any _).bind fun (directories, files) _ => (keeps_any _).bind fun _ _ =>
      answer_parse _
  | pwd => exact (keeps_any _).bind fun _ _ => answer_parse _
  | getparentdir => exact (keeps_any _).bind fun _ _ => answer_parse _
  | quit => exact absurd rfl hq
  | download file => exact download_parse
  | upload file => exact absurd rfl (hu file)
  | cd dir => exact (keeps_any _).bind fun _ _ => (keeps_any _).bind fun _ _ => answer_parse _
  | mkdir dir =>
    exact (keeps_any _).bind fun (failed, dir) _ => (keeps_any _).bind fun _ _ => answer_parse _
  | rmdir dir =>
    refine (keeps_any _).bind fun completePath _ => Keeps.ite (fun _ => answer_parse _) fun _ => ?_
    refine (keeps_any _).bind fun _ _ => (keeps_any _).bind fun _ _ => ?_
    refine (keeps_any _).bind fun _ _ => (keeps_any _).bind fun directories _ => ?_
    exact (keeps_any _).bind fun files _ => answer_parse _
  | touch file =>
    exact (keeps_any _).bind fun (failed, file) _ => (keeps_any _).bind fun _ _ => answer_parse _
  | unknown => exact (keeps_any _).bind fun _ _ => Keeps.pure rfl

/-- **What the calls of a command do** to the files: `touch` creates them, and `rmdir` removes
them. -/
theorem Command.Asks.ofCommand {command : Command} {path : List Bytes} {c : SysCall} {n : ℕ}
    {e : FileEvent} (h : command.Asks os path c) (hu : ∀ file, command ≠ .upload file)
    (he : c.event os n = some e) : e.OfCommand := by
  have hopened {f : ℕ → FileEvent} {file : Option ℕ} (hf : ∀ g, (f g).OfCommand)
      (he : file.map f = some e) : e.OfCommand := by
    obtain ⟨g, -, rfl⟩ := Option.map_eq_some_iff.mp he
    exact hf g
  cases command with
  | ls dir =>
    obtain rfl | rfl := h
    · exact absurd he (Option.some_ne_none _).symm
    · exact absurd he (Option.some_ne_none _).symm
  | download file =>
    subst h
    exact absurd he (Option.some_ne_none _).symm
  | upload file => exact absurd rfl (hu file)
  | touch file =>
    subst h
    exact hopened (f := .created) (fun _ => trivial) he
  | cd dir =>
    obtain ⟨-, rfl⟩ := h
    exact absurd he (Option.some_ne_none _).symm
  | mkdir dir =>
    obtain ⟨-, rfl⟩ := h
    exact absurd he (Option.some_ne_none _).symm
  | rmdir dir =>
    obtain ⟨-, rfl | ⟨p, -, rfl | rfl | ⟨file, -, rfl⟩⟩⟩ := h
    · exact absurd he (Option.some_ne_none _).symm
    · exact absurd he (Option.some_ne_none _).symm
    · exact absurd he (Option.some_ne_none _).symm
    · exact hopened (f := .removed) (fun _ => trivial) he
  | pwd => exact h.elim
  | getparentdir => exact h.elim
  | quit => exact h.elim
  | unknown => exact h.elim

end Parse

/-! ## One read -/

/-- What a client sends as its name and password, as `login` cuts it. -/
def loginInfo (commandOffset : ℕ) (m : Bytes) : Bytes :=
  (m ++ [0]).take (m.length + 1 - commandOffset)

/-- **A message that the table lets in.** -/
def LetsIn (userInfo : UserInfo) (commandOffset : ℕ) (rs : List ReadResult) : Prop :=
  ¬((readn rs).count < 0 ∨ (readn rs).isReadZeroBytes) ∧
    commandOffset ≤ (readn rs).buffer.length + 1 ∧
      UserManager.login userInfo (credentials (loginInfo commandOffset (readn rs).buffer)).1
        (credentials (loginInfo commandOffset (readn rs).buffer)).2 = true

/-- **A message that names a user** of the user file, and their password. -/
def Admits (content : Bytes) (commandOffset : ℕ) (rs : List ReadResult) : Prop :=
  ¬((readn rs).count < 0 ∨ (readn rs).isReadZeroBytes) ∧
    commandOffset ≤ (readn rs).buffer.length + 1 ∧
      Named content (loginInfo commandOffset (readn rs).buffer)

/-- **The table lets in whom the file names.** -/
theorem letsIn_iff_admits {content : Bytes} (h : ∀ l ∈ lines content, l.length < lineSize)
    (commandOffset : ℕ) (rs : List ReadResult) :
    LetsIn (UserManager.new content) commandOffset rs ↔ Admits content commandOffset rs := by
  rw [LetsIn, login_iff_named h, Admits]

/-- **What a read does to the files**: what it stores in an upload, or what its calls do. -/
def readEvents (os : Os) (s : Session) (rs : List ReadResult) : List FileEvent :=
  if s.processState = .upload then
    if (readn rs).buffer = crlf ∨ (readn rs).count < 0 ∨ (readn rs).isReadZeroBytes then []
    else (s.currentOpenFile.map (.received · (readn rs).buffer)).toList
  else callEvents os s.calls.length ((handleRead os rs s).2.calls.drop s.calls.length)

section Read

variable {os : Os} {s t : Session} {rs : List ReadResult}

/-- A read that the process survives. -/
theorem Reads.exists_call (h : Reads os s rs t) : ∃ p s', callBackFunc os rs s.processState s =
    (some p, s') ∧ if p = .quit then t = (quit { s' with processState := .quit }).2
      else t = { s' with processState := p } := by
  rcases hc : callBackFunc os rs s.processState s with ⟨_ | p, s'⟩
  · rw [Reads, handleRead, gets_bind, bind_of_none hc] at h
    exact absurd (congrArg Prod.fst h) (Option.some_ne_none _).symm
  · refine ⟨p, s', rfl, ?_⟩
    split
    · next hp =>
      subst hp
      exact (congrArg Prod.snd ((handleRead_of_quit hc).symm.trans h)).symm
    · next hp => exact (congrArg Prod.snd ((handleRead_of_some hc hp).symm.trans h)).symm

/-- **Who is let in.** -/
theorem login_admits (h : LetsIn s.userInfo s.commandOffset rs) : ∃ x w,
    login rs s = (some .parse, { s with sent := x, writes := w }) := by
  obtain ⟨hok, hle, hin⟩ := h
  rw [login, if_neg hok, gets_bind, if_neg (not_lt.mpr hle), gets_bind, ← loginInfo, if_pos hin]
  exact ⟨_, _, rfl⟩

/-- …and who is not. -/
theorem login_refuses (h : ¬ LetsIn s.userInfo s.commandOffset rs) : (login rs s).1 = none ∨ ∃ x w,
    login rs s = (some .quit, { s with sent := x, writes := w }) := by
  by_cases hok : (readn rs).count < 0 ∨ (readn rs).isReadZeroBytes
  · rw [login, if_pos hok]
    exact .inr ⟨_, _, rfl⟩
  · rw [login, if_neg hok, gets_bind]
    by_cases hle : s.commandOffset ≤ (readn rs).buffer.length + 1
    · rw [if_neg (not_lt.mpr hle), gets_bind, ← loginInfo,
        if_neg fun hin => h ⟨hok, hle, hin⟩]
      exact .inr ⟨_, _, rfl⟩
    · rw [if_pos (not_le.mp hle)]
      exact .inl rfl

/-- **A session that is over stays so**, and does nothing more. -/
theorem Reads.over (h : Reads os s rs t) (hs : s.processState = .quit) :
    t.processState = .quit ∧ t.deleted = true ∧ t.calls = s.calls ∧ t.disk = s.disk ∧
      t.completePath = s.completePath := by
  obtain ⟨p, s', hc, ht⟩ := h.exists_call
  rw [hs] at hc
  obtain ⟨hp, rfl⟩ := Prod.mk.inj hc
  obtain rfl := Option.some.inj hp
  rw [if_pos rfl] at ht
  subst ht
  exact ⟨rfl, rfl, rfl, rfl, rfl⟩

/-- The command of a read that the process survives. -/
theorem Reads.exists_command (h : Reads os s rs t) (hs : s.processState = .parse)
    (hok : ¬((readn rs).count < 0 ∨ (readn rs).isReadZeroBytes)) : ∃ command s₁,
    commandOf rs s = some command ∧ commandParser os rs s = execute os command s₁ ∧
      s₁.calls = s.calls ∧ s₁.completePath = s.completePath := by
  obtain ⟨p, s', hc, -⟩ := h.exists_call
  rw [hs, callBackFunc] at hc
  cases hcommand : Command.of (extractParameters s.commandOffset (readn rs).buffer) with
  | none =>
    rw [commandParser, if_neg hok, gets_bind, modify_bind, hcommand] at hc
    exact absurd (Prod.mk.inj hc).1 (Option.some_ne_none _).symm
  | some command =>
    refine ⟨command, _, ?_, commandParser_of_some hok hcommand, rfl, rfl⟩
    rw [commandOf, if_pos ⟨hs, hok⟩, hcommand]

/-- **What one read is**, and what it does to the files. -/
structure Turned (os : Os) (s : Session) (rs : List ReadResult) (t : Session) : Prop where
  turn : Turn s.stage (readEvents os s rs) t.stage
  disk (g : ℕ) : t.disk g = (readEvents os s rs).foldl (FileEvent.held g) (s.disk g)

/-- A read without an effect on the files. -/
theorem Turned.silent (he : readEvents os s rs = []) (ht : Turn s.stage [] t.stage)
    (hd : t.disk = s.disk) : Turned os s rs t where
  turn := he ▸ ht
  disk g := by rw [he, hd]; rfl

/-- **Outside an upload** the files change by the calls that are made. -/
theorem Reads.exists_calls (h : Reads os s rs t) (hs : s.processState ≠ .upload) :
    ∃ cs, t.calls = s.calls ++ cs ∧ (∀ c ∈ cs, Asks os rs s c) ∧
      readEvents os s rs = callEvents os s.calls.length cs ∧
      ∀ g, t.disk g = (readEvents os s rs).foldl (FileEvent.held g) (s.disk g) := by
  obtain ⟨cs, hcs, hasks, hdisk⟩ := (handleRead_effects os rs hs).calls
  have hevents : readEvents os s rs = callEvents os s.calls.length cs := by
    rw [readEvents, if_neg hs, hcs, List.drop_left]
  have ht : (handleRead os rs s).2 = t := congrArg Prod.snd h
  rw [ht] at hcs hdisk
  exact ⟨cs, hcs, hasks, hevents, fun g => by rw [hevents, hdisk]⟩

/-- A read without a command, outside an upload. -/
theorem Reads.turned_silent (h : Reads os s rs t) (hs : s.processState ≠ .upload)
    (hasks : ∀ c, ¬Asks os rs s c) (ht : Turn s.stage [] t.stage) : Turned os s rs t := by
  obtain ⟨cs, -, hall, hevents, hdisk⟩ := h.exists_calls hs
  obtain rfl : cs = [] := List.eq_nil_iff_forall_not_mem.mpr fun c hc => hasks c (hall c hc)
  exact ⟨hevents ▸ ht, hdisk⟩

/-- Where there is no command, nothing is asked for. -/
theorem not_asks (h : commandOf rs s = none) (c : SysCall) : ¬Asks os rs s c :=
  fun ⟨_, hcommand, _⟩ => absurd (h.symm.trans hcommand) (Option.some_ne_none _).symm

theorem Reads.turned_login (h : Reads os s rs t) (hs : s.processState = .login) :
    Turned os s rs t := by
  have hnone : commandOf rs s = none := if_neg fun hp => by simp [hs] at hp
  have hstage : s.stage = .login := by rw [Session.stage, hs]
  refine h.turned_silent (by rw [hs]; decide) (not_asks hnone) ?_
  obtain ⟨p, s', hc, ht⟩ := h.exists_call
  rw [hs, callBackFunc] at hc
  by_cases hin : LetsIn s.userInfo s.commandOffset rs
  · obtain ⟨x, w, hlogin⟩ := login_admits hin
    obtain ⟨hp, rfl⟩ := Prod.mk.inj (hlogin.symm.trans hc)
    obtain rfl := Option.some.inj hp
    rw [if_neg (by decide)] at ht
    subst ht
    exact hstage ▸ .enter
  · obtain hdead | ⟨x, w, hlogin⟩ := login_refuses hin
    · rw [hc] at hdead
      exact absurd hdead (Option.some_ne_none _)
    · obtain ⟨hp, rfl⟩ := Prod.mk.inj (hlogin.symm.trans hc)
      obtain rfl := Option.some.inj hp
      rw [if_pos rfl] at ht
      subst ht
      exact hstage ▸ .refuse

theorem Reads.turned_quit (h : Reads os s rs t) (hs : s.processState = .quit) :
    Turned os s rs t := by
  have hnone : commandOf rs s = none := if_neg fun hp => by simp [hs] at hp
  refine h.turned_silent (by rw [hs]; decide) (not_asks hnone) ?_
  rw [Session.stage, hs, Session.stage, (h.over hs).1]
  exact .over

theorem Reads.turned_upload (h : Reads os s rs t) (hs : s.processState = .upload) :
    Turned os s rs t := by
  have hstage : s.stage = .upload s.currentOpenFile := by rw [Session.stage, hs]
  obtain ⟨p, s', hc, ht⟩ := h.exists_call
  rw [hs, callBackFunc] at hc
  by_cases hend : (readn rs).buffer = crlf
  · have he : readEvents os s rs = [] := by
      rw [readEvents, if_pos hs, if_pos (.inl hend)]
    obtain ⟨hp, rfl⟩ := Prod.mk.inj ((upload_of_crlf hend).symm.trans hc)
    obtain rfl := Option.some.inj hp
    rw [if_neg (by decide)] at ht
    subst ht
    exact .silent he (hstage ▸ .finish _) rfl
  by_cases hfail : (readn rs).count < 0 ∨ (readn rs).isReadZeroBytes
  · have he : readEvents os s rs = [] := by
      rw [readEvents, if_pos hs, if_pos (.inr hfail)]
    obtain ⟨hp, rfl⟩ := Prod.mk.inj ((upload_of_failed hend hfail).symm.trans hc)
    obtain rfl := Option.some.inj hp
    rw [if_pos rfl] at ht
    subst ht
    exact .silent he (hstage ▸ .break _) rfl
  have he : readEvents os s rs
      = (s.currentOpenFile.map (.received · (readn rs).buffer)).toList := by
    rw [readEvents, if_pos hs, if_neg (not_or.mpr ⟨hend, hfail⟩)]
  rcases hopen : s.currentOpenFile with _ | f
  · rw [hopen] at he
    obtain ⟨hp, rfl⟩ := Prod.mk.inj ((upload_of_closed hend hfail hopen).symm.trans hc)
    obtain rfl := Option.some.inj hp
    rw [if_pos rfl] at ht
    subst ht
    exact .silent he (hstage ▸ .break _) rfl
  · rw [hopen] at he
    obtain ⟨hp, rfl⟩ := Prod.mk.inj ((upload_of_open hend hfail hopen).symm.trans hc)
    obtain rfl := Option.some.inj hp
    rw [if_neg (by decide)] at ht
    subst ht
    refine ⟨?_, fun g => ?_⟩
    · rw [he, hstage, hopen]
      exact .receive f _
    · rw [he]
      refine (Function.update_apply ..).trans (ite_congr rfl (fun hg => ?_) fun _ => rfl)
      rw [hg]
      rfl

/-- What `upload` does. -/
theorem execute_upload (os : Os) (file : Bytes) (s : Session) :
    ∃ s', execute os (.upload file) s = (some .upload, s') ∧
      s'.calls = s.calls ++ [.openFile .trunc (cString (workingDir s.completePath ++ file))] ∧
      s'.currentOpenFile
        = os.openFile s.calls.length (cString (workingDir s.completePath ++ file)) :=
  ⟨_, rfl, rfl, rfl⟩

/-- A read whose command is `upload`. -/
theorem Reads.turned_openFile (h : Reads os s rs t) (hs : s.processState = .parse) {file : Bytes}
    {s₁ : Session} (hcall : commandParser os rs s = execute os (.upload file) s₁)
    (hcalls₁ : s₁.calls = s.calls) (hpath₁ : s₁.completePath = s.completePath) :
    Turned os s rs t := by
  have hstage : s.stage = .command := by rw [Session.stage, hs]
  obtain ⟨p, s', hc, ht⟩ := h.exists_call
  rw [hs, callBackFunc, hcall] at hc
  obtain ⟨cs, hcs, -, hevents, hdisk⟩ := h.exists_calls (by rw [hs]; decide)
  obtain ⟨s₂, hrun, hcalls, hopened⟩ := execute_upload os file s₁
  rw [hcalls₁, hpath₁] at hcalls hopened
  obtain ⟨hp, rfl⟩ := Prod.mk.inj (hrun.symm.trans hc)
  obtain rfl := Option.some.inj hp
  rw [if_neg (by decide)] at ht
  subst ht
  obtain rfl := List.append_cancel_left (hcs.symm.trans hcalls)
  refine ⟨?_, hdisk⟩
  rw [hevents, hstage, Session.stage]
  dsimp only [callEvents, SysCall.event]
  rw [hopened]
  cases os.openFile s.calls.length (cString (workingDir s.completePath ++ file)) with
  | none => exact .fail
  | some f => exact .open f

/-- A read whose command is neither `upload` nor `quit`. -/
theorem Reads.turned_command (h : Reads os s rs t) (hs : s.processState = .parse)
    {command : Command} {s₁ : Session} (hcommand : commandOf rs s = some command)
    (hcall : commandParser os rs s = execute os command s₁)
    (hu : ∀ file, command ≠ .upload file) (hq : command ≠ .quit) : Turned os s rs t := by
  have hstage : s.stage = .command := by rw [Session.stage, hs]
  obtain ⟨p, s', hc, ht⟩ := h.exists_call
  rw [hs, callBackFunc, hcall] at hc
  obtain ⟨cs, -, hasks, hevents, hdisk⟩ := h.exists_calls (by rw [hs]; decide)
  have hkeeps : Keeps (fun _ => True) (execute os command) (· = .parse) := execute_parse hu hq
  have hparse := hkeeps s₁ trivial
  rw [hc] at hparse
  obtain rfl := hparse.2 p rfl
  rw [if_neg (by decide)] at ht
  refine ⟨?_, hdisk⟩
  rw [hstage, hevents, ht]
  refine .command _ fun e he => ?_
  obtain ⟨c, hcmem, n, hevent⟩ := mem_callEvents he
  obtain ⟨command', hcommand', hask⟩ := hasks c hcmem
  obtain rfl := Option.some.inj (hcommand.symm.trans hcommand')
  exact hask.ofCommand hu hevent

/-- A read that leaves the session: it fails, or its command is `quit`. -/
theorem Reads.turned_leave (h : Reads os s rs t) (hs : s.processState = .parse)
    (hasks : ∀ c, ¬Asks os rs s c) {s' : Session}
    (hcall : commandParser os rs s = (some .quit, s')) : Turned os s rs t := by
  obtain ⟨p, s₂, hc, ht⟩ := h.exists_call
  rw [hs, callBackFunc, hcall] at hc
  obtain ⟨hp, rfl⟩ := Prod.mk.inj hc
  obtain rfl := Option.some.inj hp
  rw [if_pos rfl] at ht
  subst ht
  refine h.turned_silent (by rw [hs]; decide) hasks ?_
  rw [Session.stage, hs]
  exact .leave

theorem Reads.turned_parse (h : Reads os s rs t) (hs : s.processState = .parse) :
    Turned os s rs t := by
  by_cases hfail : (readn rs).count < 0 ∨ (readn rs).isReadZeroBytes
  · have hnone : commandOf rs s = none := if_neg fun hok => hok.2 hfail
    exact h.turned_leave hs (not_asks hnone) (by rw [commandParser, if_pos hfail]; rfl)
  obtain ⟨command, s₁, hcommand, hcall, hcalls₁, hpath₁⟩ := h.exists_command hs hfail
  by_cases hu : ∃ file, command = .upload file
  · obtain ⟨file, rfl⟩ := hu
    exact h.turned_openFile hs hcall hcalls₁ hpath₁
  by_cases hq : command = .quit
  · subst hq
    refine h.turned_leave hs ?_ hcall
    rintro c ⟨command, hcommand', hask⟩
    obtain rfl := Option.some.inj (hcommand.symm.trans hcommand')
    exact hask
  · exact h.turned_command hs hcommand hcall (fun file he => hu ⟨file, he⟩) hq

/-- **Every read is a turn.** -/
theorem Reads.turned (h : Reads os s rs t) : Turned os s rs t := by
  cases hs : s.processState with
  | login => exact h.turned_login hs
  | parse => exact h.turned_parse hs
  | upload => exact h.turned_upload hs
  | quit => exact h.turned_quit hs

end Read

/-! ## What a client does to the files -/

/-- **What a client does to the files**: an upload, of the messages that it brought, or a file
created or removed. -/
inductive Doing
  | upload (file : ℕ) (parts : List Bytes)
  | create (file : ℕ)
  | remove (file : ℕ)

def Doing.events : Doing → List FileEvent
  | .upload f parts => .opened f :: parts.map (.received f)
  | .create f => [.created f]
  | .remove f => [.removed f]

/-- What the file `g` holds after it. -/
def Doing.held (g : ℕ) (content : Option Bytes) : Doing → Option Bytes
  | .upload f parts => if g = f then some parts.flatten else content
  | .create f => if g = f then some (content.getD []) else content
  | .remove f => if g = f then none else content

/-- A file is uploaded into or removed: nothing is left of what it held. -/
def Doing.Replaces (g : ℕ) : Doing → Prop
  | .upload f _ | .remove f => f = g
  | .create _ => False

/-- What the reads of a session do to the files. -/
def fileEvents (os : Os) : Session → List (List ReadResult) → List FileEvent
  | _, [] => []
  | s, rs :: scripts => readEvents os s rs ++ fileEvents os (handleRead os rs s).2 scripts

theorem fileEvents_concat {os : Os} {s t : Session} {scripts : List (List ReadResult)}
    (r : Run (Reads os) s scripts t) (rs : List ReadResult) :
    fileEvents os s (scripts ++ [rs]) = fileEvents os s scripts ++ readEvents os t rs := by
  induction r with
  | nil s => exact List.append_nil _
  | @cons s t _ a as h _ ih =>
    have hread : (handleRead os a s).2 = t := congrArg Prod.snd h
    rw [List.cons_append, fileEvents, fileEvents, hread, ih, List.append_assoc]

theorem held_parts (g f : ℕ) (parts : List Bytes) (content : Bytes) :
    (parts.map (FileEvent.received f)).foldl (FileEvent.held g) (some content)
      = some (if g = f then content ++ parts.flatten else content) := by
  induction parts generalizing content with
  | nil => rw [List.flatten_nil, List.append_nil, ite_self]; rfl
  | cons part parts ih =>
    rw [List.map_cons, List.foldl_cons, FileEvent.held]
    by_cases hg : g = f
    · rw [if_pos hg, ih, if_pos hg, if_pos hg, List.flatten_cons, Option.getD_some,
        List.append_assoc]
    · rw [if_neg hg, ih, if_neg hg, if_neg hg]

/-- A part is no other file's. -/
theorem held_parts_of_ne {g f : ℕ} (hg : g ≠ f) (parts : List Bytes) (content : Option Bytes) :
    (parts.map (FileEvent.received f)).foldl (FileEvent.held g) content = content := by
  induction parts with
  | nil => rfl
  | cons part parts ih => rw [List.map_cons, List.foldl_cons, FileEvent.held, if_neg hg, ih]

/-- **An upload replaces what its file held.** -/
theorem Doing.foldl_events (g : ℕ) (d : Doing) (content : Option Bytes) :
    d.events.foldl (FileEvent.held g) content = d.held g content := by
  cases d with
  | create f => rfl
  | remove f => rfl
  | upload f parts =>
    rw [Doing.events, List.foldl_cons, FileEvent.held, Doing.held]
    by_cases hg : g = f
    · rw [if_pos hg, if_pos hg, held_parts, if_pos hg, List.nil_append]
    · rw [if_neg hg, if_neg hg, held_parts_of_ne hg]

theorem foldl_doings (g : ℕ) (ds : List Doing) (content : Option Bytes) :
    (ds.flatMap Doing.events).foldl (FileEvent.held g) content
      = ds.foldl (Doing.held g) content := by
  induction ds generalizing content with
  | nil => rfl
  | cons d ds ih =>
    rw [List.flatMap_cons, List.foldl_append, Doing.foldl_events, ih, List.foldl_cons]

/-- **A file keeps what it holds** as long as nothing replaces it. -/
theorem held_of_not_replaces {g : ℕ} {content : Bytes} {ds : List Doing}
    (h : ∀ d ∈ ds, ¬d.Replaces g) : ds.foldl (Doing.held g) (some content) = some content := by
  induction ds with
  | nil => rfl
  | cons d ds ih =>
    obtain ⟨hd, hds⟩ := List.forall_mem_cons.mp h
    have hkept : d.held g (some content) = some content := by
      cases d with
      | upload f parts => exact if_neg (Ne.symm hd)
      | create f => exact ite_self _
      | remove f => exact if_neg (Ne.symm hd)
    rw [List.foldl_cons, hkept, ih hds]

/-- **The events of a session are doings, one after the other.** -/
structure Doings (ds : List Doing) (es : List FileEvent) (stage : Stage) : Prop where
  events : es = ds.flatMap Doing.events
  last (f : ℕ) : stage = .upload (some f) → ∃ ds' parts, ds = ds' ++ [.upload f parts]

/-- What commands do is done at once. -/
theorem exists_doings {es : List FileEvent} (h : ∀ e ∈ es, e.OfCommand) :
    ∃ ds : List Doing, es = ds.flatMap Doing.events := by
  induction es with
  | nil => exact ⟨[], rfl⟩
  | cons e es ih =>
    obtain ⟨he, hes⟩ := List.forall_mem_cons.mp h
    obtain ⟨ds, rfl⟩ := ih hes
    cases e with
    | created f => exact ⟨.create f :: ds, rfl⟩
    | removed f => exact ⟨.remove f :: ds, rfl⟩
    | opened f => exact he.elim
    | received f part => exact he.elim

/-- A turn adds doings, or a part to the last upload. -/
theorem Doings.turn {ds : List Doing} {es es' : List FileEvent} {stage stage' : Stage}
    (h : Doings ds es stage) (ht : Turn stage es' stage') :
    ∃ ds', Doings ds' (es ++ es') stage' := by
  cases ht with
  | command es' hes =>
    obtain ⟨ds', rfl⟩ := exists_doings hes
    exact ⟨ds ++ ds', by rw [h.events, List.flatMap_append], by simp⟩
  | «open» f =>
    refine ⟨ds ++ [.upload f []], ?_, fun f' hf => ⟨ds, [], ?_⟩⟩
    · rw [h.events, List.flatMap_append]
      rfl
    · rw [Option.some.inj (Stage.upload.inj hf)]
  | receive f part =>
    obtain ⟨ds', parts, rfl⟩ := h.last f rfl
    refine ⟨ds' ++ [.upload f (parts ++ [part])], ?_, fun f' hf => ⟨ds', parts ++ [part], ?_⟩⟩
    · rw [h.events, List.flatMap_append, List.flatMap_append, List.append_assoc,
        List.flatMap_singleton, List.flatMap_singleton, Doing.events, Doing.events,
        List.map_append]
      rfl
    · rw [Option.some.inj (Stage.upload.inj hf)]
  | _ => exact ⟨ds, (List.append_nil _).trans h.events, by simp⟩

/-! ## Runs -/

section Run

variable {os : Os} {userInfo : UserInfo} {content root : Bytes} {commandOffset : ℕ}
  {disk : ℕ → Option Bytes} {writes : List WriteResult} {s t : Session} {rs : List ReadResult}

/-- **A session that is over stays so.** -/
theorem over_of_run {scripts : List (List ReadResult)}
    (r : Run (Reads os) s scripts t) (hs : s.processState = .quit) (hd : s.deleted = true) :
    t.processState = .quit ∧ t.deleted = true ∧ t.calls = s.calls ∧ t.disk = s.disk ∧
      t.completePath = s.completePath := by
  refine r.invariant (I := fun t => t.processState = .quit ∧ t.deleted = true ∧
    t.calls = s.calls ∧ t.disk = s.disk ∧ t.completePath = s.completePath)
    (fun u rs v h hstep => ?_) ⟨hs, hd, rfl, rfl, rfl⟩
  obtain ⟨hu, -, hcalls, hdisk, hpath⟩ := h
  obtain ⟨hv, hdeleted, hcalls', hdisk', hpath'⟩ := Reads.over hstep hu
  exact ⟨hv, hdeleted, hcalls'.trans hcalls, hdisk'.trans hdisk, hpath'.trans hpath⟩

/-- A stranger's first message ends the session. -/
theorem Reads.refused
    (h : Reads os (.new userInfo root commandOffset disk writes) rs t)
    (hno : ¬LetsIn userInfo commandOffset rs) :
    t.processState = .quit ∧ t.deleted = true ∧ t.calls = [] ∧ t.disk = disk ∧
      t.completePath = [root] := by
  obtain ⟨p, s', hc, ht⟩ := h.exists_call
  have hlogin : callBackFunc os rs (Session.new userInfo root commandOffset disk
      writes).processState = login rs := rfl
  rw [hlogin] at hc
  obtain hdead | ⟨x, w, hquit⟩ := login_refuses
    (s := .new userInfo root commandOffset disk writes) hno
  · rw [hc] at hdead
    exact absurd hdead (Option.some_ne_none _)
  · obtain ⟨hp, rfl⟩ := Prod.mk.inj (hquit.symm.trans hc)
    obtain rfl := Option.some.inj hp
    rw [if_pos rfl] at ht
    subst ht
    exact ⟨rfl, rfl, rfl, rfl, rfl⟩

/-- **No login kills**, of as many bytes of a command as the default offset has. -/
theorem login_survives (h : s.commandOffset ≤ 1) : (login rs s).1 ≠ none := by
  by_cases hok : (readn rs).count < 0 ∨ (readn rs).isReadZeroBytes
  · rw [login, if_pos hok]
    exact Option.some_ne_none _
  · rw [login, if_neg hok, gets_bind, if_neg (by omega), gets_bind]
    split <;> exact Option.some_ne_none _

/-- **Nothing happens before the login** — a session whose first message does not name a user of the
user file and their password is over: it never asks the system for anything, changes no file, and
goes nowhere, whatever is sent to it later. -/
theorem admitted_of_run {scripts : List (List ReadResult)}
    (hlines : ∀ l ∈ lines content, l.length < lineSize)
    (r : Run (Reads os) (.new (UserManager.new content) root commandOffset disk writes)
      (rs :: scripts) t)
    (h : ¬Admits content commandOffset rs) :
    t.processState = .quit ∧ t.deleted = true ∧ t.calls = [] ∧ t.disk = disk ∧
      t.completePath = [root] := by
  have hno : ¬LetsIn (UserManager.new content) commandOffset rs := fun hin =>
    h ((letsIn_iff_admits hlines _ _).mp hin)
  cases r with
  | @cons _ u _ _ _ hfirst hlater =>
    obtain ⟨hquit, hdeleted, hcalls, hdisk, hpath⟩ := Reads.refused hfirst hno
    obtain ⟨hquit', hdeleted', hcalls', hdisk', hpath'⟩ := over_of_run hlater hquit hdeleted
    exact ⟨hquit', hdeleted', hcalls'.trans hcalls, hdisk'.trans hdisk, hpath'.trans hpath⟩

/-- A wrong password, and then a command. -/
theorem admitted_stranger : ∃ t,
    Run (Reads .oneFile) (.new (UserManager.new oneUserFile) (text "./page/") 1 (fun _ => none) [])
      [message (text "%admin%wrong"), message (text "upload x")] t ∧
    t.processState = .quit ∧ t.deleted = true ∧ t.calls = [] ∧ t.disk = (fun _ => none) ∧
      t.completePath = [text "./page/"] := by
  have hno : ¬Admits oneUserFile 1 (message (text "%admin%wrong")) := by
    rintro ⟨-, -, hnamed⟩
    exact absurd (named_admin.mp hnamed) (by decide)
  have hrefused : ¬LetsIn (UserManager.new oneUserFile) 1 (message (text "%admin%wrong")) :=
    fun hin => hno ((letsIn_iff_admits short_oneUserFile _ _).mp hin)
  obtain hdead | ⟨x, w, hquit⟩ := login_refuses (s := .new (UserManager.new oneUserFile)
    (text "./page/") 1 (fun _ => none) []) hrefused
  · exact absurd hdead (login_survives le_rfl)
  · have r : Run (Reads .oneFile)
        (.new (UserManager.new oneUserFile) (text "./page/") 1 (fun _ => none) [])
        [message (text "%admin%wrong"), message (text "upload x")] _ :=
      .cons (handleRead_of_quit hquit) (.single rfl)
    exact ⟨_, r, admitted_of_run short_oneUserFile r hno⟩

/-- A system on which every name is the file `0`, also where a directory is listed. -/
def Os.oneEntry : Os := { Os.oneFile with
  opendir := fun _ _ => some [⟨text "x", false⟩]
  remove := fun _ _ => some 0
  stack := 1 }

end Run

end WebServer.Ftp
