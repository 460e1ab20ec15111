import WebServer.Ftp.FtpConnection

/-!
# Ftp/Authentication — whom a session lets in

A message `%name%password` with a record of the user file is let in, and other messages are not, but
for three slips: the loop that loads the file adds a record of its own, names and passwords are cut
at their nulls, and a message without its two signs is taken apart at `npos`.  `authenticates_iff`
says for which files and messages none of them shows.
-/

namespace WebServer.Ftp

open Utility (ReadResult)

/-! ## The message -/

section Credentials

variable {m q n p r : Bytes}

/-- Two ways to cut a string at its first `c` are one. -/
theorem cut_unique {c : UInt8} {a b x y : Bytes} (ha : c ∉ a) (hb : c ∉ b)
    (h : a ++ c :: x = b ++ c :: y) : a = b ∧ x = y := by
  induction a generalizing b with
  | nil =>
    cases b with
    | nil => exact ⟨rfl, (List.cons.inj h).2⟩
    | cons d b => exact absurd ((List.cons.inj h).1 ▸ List.mem_cons_self ..) hb
  | cons d a ih =>
    cases b with
    | nil => exact absurd ((List.cons.inj h).1 ▸ List.mem_cons_self ..) ha
    | cons e b =>
      obtain ⟨hd, htail⟩ := List.cons.inj h
      obtain ⟨rfl, rfl⟩ := ih (fun hc => ha (List.mem_cons_of_mem _ hc))
        (fun hc => hb (List.mem_cons_of_mem _ hc)) htail
      exact ⟨by rw [hd], rfl⟩

/-- What follows a cut. -/
theorem drop_cut (c : UInt8) (a x : Bytes) : (a ++ c :: x).drop (a.length + 1) = x := by
  rw [← List.singleton_append, ← List.append_assoc]
  exact List.drop_left' (List.length_append ..)

/-- **Without a sign**, the message is name and password. -/
theorem credentials_of_not_mem (h : percent ∉ m) : credentials m = (m, m) := by
  have h₀ : findChar m percent (some 0) = none := findChar_append_none [] h
  rw [credentials, h₀]
  dsimp only [StrPos.succ]
  rw [h₀]
  rfl

/-- **With one sign**, the name is what follows it, and the password the message. -/
theorem credentials_of_one (hq : percent ∉ q) (hr : percent ∉ r) :
    credentials (q ++ percent :: r) = (r, q ++ percent :: r) := by
  have h₁ : findChar (q ++ percent :: r) percent (some 0) = some q.length := by
    have := findChar_append [] hq r
    rwa [List.nil_append, List.length_nil, Nat.zero_add] at this
  have h₂ : findChar (q ++ percent :: r) percent (some (q.length + 1)) = none := by
    have := findChar_append_none (q ++ [percent]) hr
    rwa [List.append_assoc, List.length_append, List.length_singleton] at this
  rw [credentials, h₁]
  dsimp only [StrPos.succ]
  rw [h₂]
  dsimp only [StrPos.succ, substr]
  rw [drop_cut, List.drop_zero]

/-- **With two signs**, the name is between the first two, and the password follows them. -/
theorem credentials_of_two (hq : percent ∉ q) (hn : percent ∉ n) :
    credentials (q ++ percent :: (n ++ percent :: p)) = (n, p) := by
  have h₁ : findChar (q ++ percent :: (n ++ percent :: p)) percent (some 0) = some q.length := by
    have := findChar_append [] hq (n ++ percent :: p)
    rwa [List.nil_append, List.length_nil, Nat.zero_add] at this
  have h₂ : findChar (q ++ percent :: (n ++ percent :: p)) percent (some (q.length + 1))
      = some (q.length + 1 + n.length) := by
    have := findChar_append (q ++ [percent]) hn p
    rwa [List.append_assoc, List.length_append, List.length_singleton] at this
  have hpwd : (q ++ percent :: (n ++ percent :: p)).drop (q.length + 1 + n.length + 1) = p := by
    rw [Nat.add_assoc, ← List.drop_drop, drop_cut, drop_cut]
  rw [credentials, h₁]
  dsimp only [StrPos.succ]
  rw [h₂]
  dsimp only [StrPos.succ, substr]
  rw [hpwd, drop_cut, Nat.add_assoc, Nat.add_sub_cancel_left, Nat.add_sub_cancel_left,
    List.take_left]

end Credentials

/-! ## The login -/

/-- **A session that awaits its login** lets in whom the table has. -/
theorem handleRead_login (os : Os) {s : Session} (hlogin : s.processState = .login)
    (hoffset : s.commandOffset = 1) (m : Bytes) :
    (handleRead os (Utility.deliver m) s).2.processState = .parse ↔
      UserManager.login s.userInfo (credentials m).1 (credentials m).2 = true := by
  have hm : (m ++ [0]).take (m.length + 1 - 1) = m := List.take_left
  have hlt : ¬(m.length + 1 < 1) := by omega
  have hcall : callBackFunc os (Utility.deliver m) s.processState s =
      if UserManager.login s.userInfo (credentials m).1 (credentials m).2 = true then
        (some .parse, (writen (text "UserInfo correct and enter your cmd :\n") s).2)
      else (some .quit, (writen (text "your userName or key is incorrect\n") s).2) := by
    rw [hlogin]
    change login (Utility.deliver m) s = _
    rw [login, if_neg (not_failed_deliver m), Program.gets_bind, hoffset, readn_deliver, if_neg hlt]
    dsimp only
    rw [hm, Program.gets_bind]
    split <;> rfl
  by_cases h : UserManager.login s.userInfo (credentials m).1 (credentials m).2 = true
  · rw [if_pos h] at hcall
    rw [handleRead_of_some hcall (by decide)]
    exact iff_of_true rfl h
  · rw [if_neg h] at hcall
    rw [handleRead_of_quit hcall]
    exact iff_of_false (fun he => ProcessState.noConfusion he) h

/-! ## Names, passwords and the user file -/

section Authentication

variable {content m n p : Bytes}

/-- **The file's last record for a name** has the password. -/
def Recorded (content n p : Bytes) : Prop := lastPassword (records (lines content)) n = some p

/-- **A message that the file answers for**: `%n%p`, with a record. -/
def MessageOf (content m : Bytes) : Prop :=
  ∃ n p, m = percent :: (n ++ percent :: p) ∧ percent ∉ n ∧ Recorded content n p

/-- **The name of the record that the loop adds**: the line that is left over, up to its first null,
and none after an even number of lines. -/
def surplus (content : Bytes) : Bytes := cString (addedName (lines content))

/-- **The file's last record whose name is `n`** up to its first null. -/
def LastCut (content n : Bytes) (r : Bytes × Bytes) : Prop :=
  ∃ before after, records (lines content) = before ++ r :: after ∧ cString r.1 = n ∧
    ∀ x ∈ after, cString x.1 ≠ n

/-- **A name and its password**: that of the record that the loop adds and no password, or those of
another name's last record, up to their nulls. -/
def Known (content n p : Bytes) : Prop :=
  (n = surplus content ∧ p = []) ∨
    (n ≠ surplus content ∧ ∃ r, LastCut content n r ∧ cString r.2 = p)

/-- **A message that names a user and their password**, as its signs cut it: what is between the
first two and what is behind them, what is behind its only sign and itself, or itself twice. -/
inductive Named (content : Bytes) : Bytes → Prop
  | unsigned {m : Bytes} (hm : percent ∉ m) (h : Known content m m) : Named content m
  | once {q r : Bytes} (hq : percent ∉ q) (hr : percent ∉ r)
      (h : Known content r (q ++ percent :: r)) : Named content (q ++ percent :: r)
  | two {q n p : Bytes} (hq : percent ∉ q) (hn : percent ∉ n) (h : Known content n p) :
      Named content (q ++ percent :: (n ++ percent :: p))

/-- **A name whose record shows no slip**, with this password. -/
structure Signed (content n p : Bytes) : Prop where
  /-- The name that the loop adds is let in without a password: so it has to be recorded. -/
  added : n = surplus content → p = [] → Recorded content n []
  /-- …and with no other: a password that is recorded for it is forgotten. -/
  hidden : n = surplus content → p ≠ [] → ¬Recorded content n p
  /-- A recorded name with a null is not found. -/
  null : 0 ∈ n → ¬Recorded content n p
  /-- A recorded password with a null is cut: it is not found, and what is left of it is. -/
  cut (p' : Bytes) : n ≠ surplus content → LastCut content n (n, p') → 0 ∈ p' →
    p ≠ p' ∧ p ≠ cString p'
  /-- A recorded name that goes on behind a null takes the name's place, with its own password. -/
  replaced (n' p' : Bytes) : n ≠ surplus content → LastCut content n (n', p') → 0 ∈ n' →
    (p = cString p' ∧ Recorded content n p) ∨ (p ≠ cString p' ∧ ¬Recorded content n p)

/-- **A name that is denied**, with this password: it is not the one that the loop adds, without a
password, and its last record has another one. -/
structure Denied (content n p : Bytes) : Prop where
  added : n = surplus content → p ≠ []
  recorded (r : Bytes × Bytes) : n ≠ surplus content → LastCut content n r → cString r.2 ≠ p

/-- **The file and the message show no slip.** -/
structure Exact (content m : Bytes) : Prop where
  /-- The name and the password of a message `%n%p`. -/
  signed (n p : Bytes) : m = percent :: (n ++ percent :: p) → percent ∉ n → Signed content n p
  /-- Without a sign the whole message would be name and password. -/
  unsigned : percent ∉ m → Denied content m m
  /-- With one sign the name would be what follows it, the password the message. -/
  once (q r : Bytes) : m = q ++ percent :: r → percent ∉ q → percent ∉ r → Denied content r m
  /-- What stands before the first of two signs would be passed over. -/
  late (q n p : Bytes) : m = q ++ percent :: (n ++ percent :: p) → q ≠ [] → percent ∉ q →
    percent ∉ n → Denied content n p

/-! ## What the table has -/

theorem lastPassword_eq_some {rs : List (Bytes × Bytes)} : lastPassword rs n = some p ↔
    ∃ before after, rs = before ++ (n, p) :: after ∧ ∀ x ∈ after, x.1 ≠ n := by
  induction rs using List.reverseRecOn with
  | nil => exact iff_of_false (by simp [lastPassword]) (by simp)
  | append_singleton rs r ih =>
    rw [lastPassword_concat]
    constructor
    · intro h
      split at h
      · next hr =>
        exact ⟨rs, [], by rw [← hr, ← Option.some.inj h], by simp⟩
      · next hr =>
        obtain ⟨before, after, rfl, hafter⟩ := ih.mp h
        refine ⟨before, after ++ [r], by rw [List.append_assoc, List.cons_append], fun x hx => ?_⟩
        obtain hx | hx := List.mem_append.mp hx
        · exact hafter x hx
        · exact List.mem_singleton.mp hx ▸ hr
    · rintro ⟨before, after, hcut, hafter⟩
      obtain rfl | ⟨init, last, rfl⟩ := List.eq_nil_or_concat' after
      · obtain ⟨-, hr⟩ := List.append_inj' hcut rfl
        rw [List.singleton_inj.mp hr, if_pos rfl]
      · rw [← List.cons_append, ← List.append_assoc] at hcut
        obtain ⟨hrs, hr⟩ := List.append_inj' hcut rfl
        obtain rfl := List.singleton_inj.mp hr
        rw [if_neg (hafter r (by simp))]
        exact ih.mpr ⟨before, init, hrs, fun x hx => hafter x (List.mem_append_left _ hx)⟩

/-- The table's record of another name than the one that the loop adds. -/
theorem lastPassword_cRecord :
    lastPassword ((records (lines content)).map cRecord) n = some p ↔
      ∃ r, LastCut content n r ∧ cString r.2 = p := by
  rw [lastPassword_eq_some]
  constructor
  · rintro ⟨before, after, hcut, hafter⟩
    obtain ⟨before', rest, hrs, -, hrest⟩ := List.map_eq_append_iff.mp hcut
    obtain ⟨r, after', rfl, hr, rfl⟩ := List.map_eq_cons_iff.mp hrest
    obtain ⟨hn, hp⟩ := Prod.mk.inj hr
    exact ⟨r, ⟨before', after', hrs, hn, fun x hx => hafter _ (List.mem_map_of_mem hx)⟩, hp⟩
  · rintro ⟨r, ⟨before, after, hrs, hn, hafter⟩, hp⟩
    refine ⟨before.map cRecord, after.map cRecord, ?_, fun x hx => ?_⟩
    · rw [hrs, List.map_append, List.map_cons, cRecord, hn, hp]
    · obtain ⟨y, hy, rfl⟩ := List.mem_map.mp hx
      exact hafter y hy

/-- **The table has those that are known.** -/
theorem login_iff_known (h : ∀ l ∈ lines content, l.length < lineSize) :
    UserManager.login (UserManager.new content) n p = true ↔ Known content n p := by
  rw [UserManager.login_iff, UserManager.new_apply h, Known, ← surplus]
  by_cases hn : surplus content = n
  · rw [if_pos hn, Option.some_inj, eq_comm]
    simp [hn]
  · rw [if_neg hn, lastPassword_cRecord]
    simp [Ne.symm hn]

/-- **Who is let in** is named by the message. -/
theorem login_iff_named (h : ∀ l ∈ lines content, l.length < lineSize) (m : Bytes) :
    UserManager.login (UserManager.new content) (credentials m).1 (credentials m).2 = true ↔
      Named content m := by
  rw [login_iff_known h]
  constructor
  · intro hknown
    by_cases hm : percent ∈ m
    · obtain ⟨q, r, rfl, hq⟩ := List.eq_append_cons_of_mem hm
      by_cases hr : percent ∈ r
      · obtain ⟨n, p, rfl, hn⟩ := List.eq_append_cons_of_mem hr
        rw [credentials_of_two hq hn] at hknown
        exact .two hq hn hknown
      · rw [credentials_of_one hq hr] at hknown
        exact .once hq hr hknown
    · rw [credentials_of_not_mem hm] at hknown
      exact .unsigned hm hknown
  · intro hnamed
    cases hnamed with
    | unsigned hm hknown => rwa [credentials_of_not_mem hm]
    | once hq hr hknown => rwa [credentials_of_one hq hr]
    | two hq hn hknown => rwa [credentials_of_two hq hn]

theorem known_surplus (hn : n = surplus content) : Known content n p ↔ p = [] := by
  simp [Known, hn]

theorem known_of_ne (hn : n ≠ surplus content) :
    Known content n p ↔ ∃ r, LastCut content n r ∧ cString r.2 = p := by
  simp [Known, hn]

theorem denied_iff : Denied content n p ↔ ¬Known content n p := by
  by_cases hn : n = surplus content
  · rw [known_surplus hn]
    exact ⟨fun h => h.added hn, fun h => ⟨fun _ => h, fun r hne => absurd hn hne⟩⟩
  · rw [known_of_ne hn]
    exact ⟨fun h ⟨r, hr, hp⟩ => h.recorded r hn hr hp,
      fun h => ⟨fun he => absurd he hn, fun r _ hr hp => h ⟨r, hr, hp⟩⟩⟩

theorem LastCut.unique {r r' : Bytes × Bytes} (h : LastCut content n r)
    (h' : LastCut content n r') : r = r' := by
  obtain ⟨before, after, hcut, hn, hafter⟩ := h
  obtain ⟨before', after', hcut', hn', hafter'⟩ := h'
  rw [hcut, List.append_eq_append_iff] at hcut'
  obtain ⟨mid, -, hmid⟩ | ⟨mid, -, hmid⟩ := hcut'
  · cases mid with
    | nil => exact (List.cons.inj hmid).1
    | cons x mid =>
      have hmem : r' ∈ after := (List.cons.inj hmid).2 ▸ List.mem_append_right _ List.mem_cons_self
      exact absurd hn' (hafter r' hmem)
  · cases mid with
    | nil => exact (List.cons.inj hmid).1.symm
    | cons x mid =>
      have hmem : r ∈ after' := (List.cons.inj hmid).2 ▸ List.mem_append_right _ List.mem_cons_self
      exact absurd hn (hafter' r hmem)

theorem exists_lastCut {r : Bytes × Bytes} (hr : r ∈ records (lines content)) :
    ∃ x, LastCut content (cString r.1) x := by
  have hsome : ∀ rs : List (Bytes × Bytes), r ∈ rs → ∃ x before after,
      rs = before ++ x :: after ∧ cString x.1 = cString r.1 ∧
        ∀ y ∈ after, cString y.1 ≠ cString r.1 := by
    intro rs
    induction rs using List.reverseRecOn with
    | nil => exact fun h => absurd h List.not_mem_nil
    | append_singleton rs y ih =>
      intro h
      by_cases hy : cString y.1 = cString r.1
      · exact ⟨y, rs, [], rfl, hy, by simp⟩
      · have hrs : r ∈ rs := (List.mem_append.mp h).resolve_right fun he =>
          hy (List.mem_singleton.mp he ▸ rfl)
        obtain ⟨x, before, after, rfl, hx, hafter⟩ := ih hrs
        refine ⟨x, before, after ++ [y], by rw [List.append_assoc, List.cons_append], hx,
          fun z hz => ?_⟩
        obtain hz | hz := List.mem_append.mp hz
        · exact hafter z hz
        · exact List.mem_singleton.mp hz ▸ hy
  exact hsome _ hr

/-- A last record with the name itself is the one that counts. -/
theorem LastCut.recorded_iff {p' : Bytes} (h : LastCut content n (n, p')) :
    Recorded content n p ↔ p = p' := by
  obtain ⟨before, after, hcut, hn, hafter⟩ := h
  have hlast : lastPassword (records (lines content)) n = some p' :=
    lastPassword_eq_some.mpr ⟨before, after, hcut, fun x hx he => hafter x hx (he ▸ hn)⟩
  rw [Recorded, hlast, Option.some_inj, eq_comm]

/-- A name with a null byte is never known. -/
theorem zero_notMem_of_known (h : Known content n p) : 0 ∉ n := by
  obtain ⟨rfl, -⟩ | ⟨-, r, ⟨-, -, -, rfl, -⟩, -⟩ := h
  · exact zero_notMem_cString _
  · exact zero_notMem_cString _

/-- Where there is a last record, its password is the one that is known. -/
theorem LastCut.known_iff {r : Bytes × Bytes} (hr : LastCut content n r)
    (hn : n ≠ surplus content) : Known content n p ↔ p = cString r.2 := by
  rw [known_of_ne hn]
  exact ⟨fun ⟨r', hr', hcut⟩ => by rw [← hcut, ← hr.unique hr'], fun hp => ⟨r, hr, hp.symm⟩⟩

/-- What is recorded has a last record. -/
theorem exists_lastCut_of_recorded (hrec : Recorded content n p) (h0 : 0 ∉ n) :
    ∃ r, LastCut content n r := by
  obtain ⟨before, after, hcut, -⟩ := lastPassword_eq_some.mp hrec
  have hmem : (n, p) ∈ records (lines content) :=
    hcut ▸ List.mem_append_right _ List.mem_cons_self
  have hlast := exists_lastCut hmem
  rwa [cString_of_notMem h0] at hlast

theorem signed_of_known_iff_recorded (h : Known content n p ↔ Recorded content n p) :
    Signed content n p where
  added hn hp := hp ▸ h.mp ((known_surplus hn).mpr hp)
  hidden hn hp hrec := hp ((known_surplus hn).mp (h.mpr hrec))
  null h0 hrec := zero_notMem_of_known (h.mpr hrec) h0
  cut p' hn hr h0 := by
    have hne : p' ≠ cString p' := fun he => zero_notMem_cString p' (he ▸ h0)
    rw [hr.known_iff hn, hr.recorded_iff] at h
    exact ⟨fun hp => hne (hp.symm.trans (h.mpr hp)), fun hp => hne ((h.mp hp).symm.trans hp)⟩
  replaced n' p' hn hr h0 := by
    rw [hr.known_iff hn] at h
    by_cases hp : p = cString p'
    · exact .inl ⟨hp, h.mp hp⟩
    · exact .inr ⟨hp, fun hrec => hp (h.mpr hrec)⟩

/-- Where no slip shows, a name that is not the surplus one is known with its last record. -/
theorem Signed.known_iff_of_last {r : Bytes × Bytes} (h : Signed content n p)
    (hr : LastCut content n r) (hn : n ≠ surplus content) :
    Known content n p ↔ Recorded content n p := by
  obtain ⟨n', p'⟩ := r
  rw [hr.known_iff hn]
  by_cases h0' : 0 ∈ n'
  · obtain ⟨hp, hrec⟩ | ⟨hp, hrec⟩ := h.replaced n' p' hn hr h0'
    · exact iff_of_true hp hrec
    · exact iff_of_false hp hrec
  · obtain rfl : n' = n := (cString_of_notMem h0').symm.trans hr.choose_spec.choose_spec.2.1
    rw [hr.recorded_iff]
    by_cases h0p : 0 ∈ p'
    · obtain ⟨hp, hcut⟩ := h.cut p' hn hr h0p
      exact iff_of_false hcut hp
    · rw [cString_of_notMem h0p]

/-- **The file and its table agree** on a name and a password exactly if no slip shows. -/
theorem known_iff_recorded_iff :
    (Known content n p ↔ Recorded content n p) ↔ Signed content n p := by
  refine ⟨signed_of_known_iff_recorded, fun h => ?_⟩
  by_cases hn : n = surplus content
  · rw [known_surplus hn]
    exact ⟨fun hp => hp ▸ h.added hn hp, fun hrec => by_contra fun hp => h.hidden hn hp hrec⟩
  by_cases h0 : 0 ∈ n
  · exact iff_of_false (fun hknown => zero_notMem_of_known hknown h0) (h.null h0)
  by_cases hex : ∃ r, LastCut content n r
  · obtain ⟨r, hr⟩ := hex
    exact h.known_iff_of_last hr hn
  · rw [known_of_ne hn]
    exact iff_of_false (fun ⟨r, hr, _⟩ => hex ⟨r, hr⟩) fun hrec =>
      hex (exists_lastCut_of_recorded hrec h0)

/-! ## Messages by their signs -/

/-- A message without a sign. -/
theorem exact_unsigned (hm : percent ∉ m) : (Known content m m ↔ MessageOf content m) ↔
    Exact content m := by
  have hmem {a x : Bytes} : m ≠ a ++ percent :: x := fun he =>
    hm (he ▸ List.mem_append_right _ (List.mem_cons_self ..))
  have hspec : ¬MessageOf content m := fun ⟨n, p, he, _⟩ => hmem (a := []) he
  rw [iff_false_right hspec]
  refine ⟨fun h => ⟨fun n p he => ?_, fun _ => denied_iff.mpr h, fun q r he => ?_,
    fun q n p he => ?_⟩, fun h => denied_iff.mp (h.unsigned hm)⟩
  · exact absurd he (hmem (a := []))
  · exact absurd he hmem
  · exact absurd he hmem

/-- A message with one sign. -/
theorem exact_once {q r : Bytes} (hq : percent ∉ q) (hr : percent ∉ r) :
    (Known content r (q ++ percent :: r) ↔ MessageOf content (q ++ percent :: r)) ↔
      Exact content (q ++ percent :: r) := by
  have hsecond {a n p : Bytes} (ha : percent ∉ a)
      (he : q ++ percent :: r = a ++ percent :: (n ++ percent :: p)) : False :=
    hr ((cut_unique hq ha he).2 ▸ List.mem_append_right _ (List.mem_cons_self ..))
  have hspec : ¬MessageOf content (q ++ percent :: r) := fun ⟨n, p, he, _⟩ =>
    hsecond List.not_mem_nil he
  rw [iff_false_right hspec]
  refine ⟨fun h => ⟨fun n p he => ?_, fun hm => ?_, fun q' r' he hq' _ => ?_,
    fun q' n p he _ hq' => ?_⟩, fun h => denied_iff.mp (h.once q r rfl hq hr)⟩
  · exact (hsecond List.not_mem_nil he).elim
  · exact absurd (List.mem_append_right _ (List.mem_cons_self ..)) hm
  · rw [(cut_unique hq' hq he.symm).2]
    exact denied_iff.mpr h
  · exact (hsecond hq' he).elim

/-- A message with two signs, or more. -/
theorem exact_two {q n p : Bytes} (hq : percent ∉ q) (hn : percent ∉ n) :
    (Known content n p ↔ MessageOf content (q ++ percent :: (n ++ percent :: p))) ↔
      Exact content (q ++ percent :: (n ++ percent :: p)) := by
  have hsame {a x y : Bytes} (ha : percent ∉ a) (hx : percent ∉ x)
      (he : q ++ percent :: (n ++ percent :: p) = a ++ percent :: (x ++ percent :: y)) :
      q = a ∧ n = x ∧ p = y := by
    obtain ⟨hqa, htail⟩ := cut_unique hq ha he
    exact ⟨hqa, cut_unique hn hx htail⟩
  have honce {a x : Bytes} (ha : percent ∉ a)
      (he : q ++ percent :: (n ++ percent :: p) = a ++ percent :: x) : percent ∈ x :=
    (cut_unique hq ha he).2 ▸ List.mem_append_right _ (List.mem_cons_self ..)
  have hsign : percent ∈ q ++ percent :: (n ++ percent :: p) :=
    List.mem_append_right _ (List.mem_cons_self ..)
  by_cases hnil : q = []
  · have hspec : MessageOf content (q ++ percent :: (n ++ percent :: p)) ↔
        Recorded content n p := by
      refine ⟨fun ⟨x, y, he, hx, h⟩ => ?_, fun h => ⟨n, p, by rw [hnil, List.nil_append], hn, h⟩⟩
      obtain ⟨-, rfl, rfl⟩ := hsame (a := []) List.not_mem_nil hx he
      exact h
    rw [hspec]
    refine ⟨fun h => ⟨fun x y he hx => ?_, fun hm => absurd hsign hm,
      fun a x he ha hx => absurd (honce ha he) hx, fun a x y he ha ha' hx => ?_⟩,
      fun h => known_iff_recorded_iff.mpr (h.signed n p (by rw [hnil, List.nil_append]) hn)⟩
    · obtain ⟨-, rfl, rfl⟩ := hsame (a := []) List.not_mem_nil hx he
      exact known_iff_recorded_iff.mp h
    · exact absurd ((hsame ha' hx he).1.symm.trans hnil) ha
  · have hspec : ¬MessageOf content (q ++ percent :: (n ++ percent :: p)) :=
      fun ⟨x, y, he, hx, _⟩ => hnil (hsame (a := []) List.not_mem_nil hx he).1
    rw [iff_false_right hspec]
    refine ⟨fun h => ⟨fun x y he hx => ?_, fun hm => absurd hsign hm,
      fun a x he ha hx => absurd (honce ha he) hx, fun a x y he _ ha hx => ?_⟩,
      fun h => denied_iff.mp (h.late q n p rfl hnil hq hn)⟩
    · exact absurd (hsame (a := []) List.not_mem_nil hx he).1 hnil
    · obtain ⟨-, rfl, rfl⟩ := hsame ha hx he
      exact denied_iff.mpr h

/-- A message `%n%p` shows no slip if its name and password do not. -/
theorem Signed.exact {n p : Bytes} (hn : percent ∉ n) (h : Signed content n p) :
    Exact content (percent :: (n ++ percent :: p)) := by
  have hcut {a x y : Bytes} (ha : percent ∉ a)
      (he : percent :: (n ++ percent :: p) = a ++ percent :: x) :
      a = [] ∧ x = n ++ percent :: p := by
    obtain ⟨rfl, rfl⟩ := cut_unique (a := []) List.not_mem_nil ha he
    exact ⟨rfl, rfl⟩
  refine ⟨fun n' p' he hn' => ?_, fun hm => absurd List.mem_cons_self hm, fun q r he hq hr => ?_,
    fun q n' p' he hne hq _ => absurd (hcut (y := []) hq he).1 hne⟩
  · obtain ⟨rfl, rfl⟩ := cut_unique hn hn' (List.cons.inj he).2
    exact h
  · obtain ⟨-, rfl⟩ := hcut (y := []) hq he
    exact absurd (List.mem_append_right _ List.mem_cons_self) hr

/-- The user file of one user. -/
def oneUserFile : Bytes := text "admin\nsecret\n"

theorem short_oneUserFile : ∀ l ∈ lines oneUserFile, l.length < lineSize := by decide

theorem lastCut_admin : LastCut oneUserFile (text "admin") (text "admin", text "secret") :=
  ⟨[], [], by decide, by decide, by simp⟩

/-- Her name and her password. -/
theorem named_admin {p : Bytes} :
    Named oneUserFile (text "%admin%" ++ p) ↔ p = text "secret" := by
  have hne : text "admin" ≠ surplus oneUserFile := by decide
  have hm : text "%admin%" ++ p = [] ++ percent :: (text "admin" ++ percent :: p) := by
    rw [List.nil_append, ← List.singleton_append (l := p), ← List.append_assoc, ← List.cons_append]
    exact congrArg (· ++ p) (by decide)
  rw [hm, ← login_iff_named short_oneUserFile, credentials_of_two List.not_mem_nil (by decide),
    login_iff_known short_oneUserFile, known_of_ne hne]
  refine ⟨fun ⟨r, hr, hp⟩ => ?_, fun hp => ⟨_, lastCut_admin, ?_⟩⟩
  · obtain rfl := hr.unique lastCut_admin
    exact hp.symm
  · rw [hp]
    decide

end Authentication

end WebServer.Ftp
