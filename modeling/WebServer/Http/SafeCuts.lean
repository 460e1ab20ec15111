import WebServer.Http.LastByte
import WebServer.Http.Pipeline

/-!
# Http/SafeCuts — where a request may be cut

A cut inside the request line, or before its CR, is answered with an error.  A cut inside the header
loses a line, and a cut inside the empty line leaves a line feed behind that counts as a second
request.  What is left are the two cuts at the end of the request line (`independent_iff`).
-/

namespace WebServer.Http

open Event Utility

/-! ## Where a read can end -/

/-- **A cut of some lines and what ends the block**, the empty line or nothing. -/
inductive FieldCut (ks : List Field) (e : Bytes) : Bytes → Bytes → Prop
  | between {fs gs : List Field} (h : ks = fs ++ gs) :
      FieldCut ks e (fieldLines fs) (fieldLines gs ++ e)
  | inside {fs gs : List Field} {k : Field} {u v : Bytes} (h : ks = fs ++ k :: gs)
      (hk : k.line = u ++ v) (hu : u ≠ []) (hv : v ≠ []) :
      FieldCut ks e (fieldLines fs ++ u) (v ++ (fieldLines gs ++ e))
  | emptyLine (he : e = crlf) : FieldCut ks e (fieldLines ks ++ [Chr.cr]) [Chr.lf]

theorem FieldCut.cons {ks : List Field} {e w t : Bytes} (k : Field) (c : FieldCut ks e w t) :
    FieldCut (k :: ks) e (k.line ++ w) t := by
  cases c with
  | @between fs gs h =>
    rw [← fieldLines_cons]
    exact .between (by rw [h, List.cons_append])
  | @inside fs gs g u v h hg hu hv =>
    rw [← List.append_assoc, ← fieldLines_cons]
    exact .inside (by rw [h, List.cons_append]) hg hu hv
  | emptyLine he =>
    rw [← List.append_assoc, ← fieldLines_cons]
    exact .emptyLine he

theorem fieldCut {e : Bytes} (he : e = crlf ∨ e = []) : ∀ {ks : List Field} {w t : Bytes},
    w ++ t = fieldLines ks ++ e → t ≠ [] → FieldCut ks e w t
  | [], w, t, h, ht => by
      have h : w ++ t = e := h
      obtain rfl | rfl := he
      · rcases w with _ | ⟨b, _ | ⟨c, w⟩⟩
        · obtain rfl : t = crlf := h
          exact @FieldCut.between _ _ [] [] rfl
        · obtain ⟨rfl, hlf⟩ := List.cons.inj h
          obtain rfl : t = [Chr.lf] := hlf
          exact .emptyLine rfl
        · have hnil := (List.cons.inj (List.cons.inj h).2).2
          exact absurd (List.append_eq_nil_iff.mp hnil).2 ht
      · exact absurd (List.append_eq_nil_iff.mp h).2 ht
  | k :: ks, w, t, h, ht => by
      rw [fieldLines_cons, List.append_assoc] at h
      obtain ⟨v, hv, htail⟩ | ⟨w', rfl, hw'⟩ := List.append_eq_append_iff.mp h
      · by_cases hw : w = []
        · rw [hw, List.nil_append] at hv
          rw [hw, htail, ← hv, ← List.append_assoc, ← fieldLines_cons]
          exact @FieldCut.between _ _ [] _ rfl
        · by_cases hne : v = []
          · rw [hne, List.append_nil] at hv
            rw [htail, hne, List.nil_append, ← hv, ← List.append_nil k.line]
            exact @FieldCut.between _ _ [k] _ rfl
          · rw [htail]
            exact @FieldCut.inside _ _ [] _ _ _ _ rfl hv hw hne
      · exact (fieldCut he hw'.symm ht).cons k

/-! ## A first read that spoils the request -/

section FirstRead

variable {κ : Type*} [PageCache κ] (files : FileSystem)

/-- **However the rest arrives**, the request ends as no request should, or a wrong name is recorded
on the way. -/
def Doomed (h : Handler κ) (tail : Bytes) : Prop :=
  ∀ reads, reads ≠ [] → (∀ segment ∈ reads, segment ≠ []) → reads.flatten = tail →
    Ruined (serve files h reads) ∨
      ∃ before after, before ++ after = reads ∧ after ≠ [] ∧ Spoiled (serve files h before)

variable {files}

theorem doomed_of_givenUp {h : Handler κ} {tail : Bytes} (hg : GivenUp h ∧ Ruined h) :
    Doomed files h tail := by
  intro reads _ _ _
  rw [serve_givenUp files hg.1]
  exact .inl hg.2

theorem doomed_of_lost {h : Handler κ} {tail : Bytes} (l : Lost h)
    (hc : Closed (h.conn.readBuffer ++ tail)) : Doomed files h tail := by
  rintro reads hne - rfl
  exact serve_lost files l hne hc

/-- Between the last line and the empty line. -/
theorem doomed_of_lineFeed {h : Handler κ} (s : Silent h) (hp : h.conn.processState = .parseHeaders)
    (hlf : h.conn.parseState = .lf) (hb : h.conn.readBuffer = [Chr.lf]) : Doomed files h crlf := by
  intro reads hne hseg hflat
  obtain ⟨segment, reads, rfl⟩ := List.exists_cons_of_ne_nil hne
  obtain ⟨b, x, rfl⟩ := List.exists_cons_of_ne_nil (hseg segment (List.mem_cons_self ..))
  rw [List.flatten_cons] at hflat
  obtain ⟨rfl, -⟩ := List.cons.inj hflat
  have a := atHeader_next files s hp (Chr.cr :: x)
  obtain ⟨s', hparse⟩ := parseRequestHeader_emptyLine
    (c := ((h.feed (Chr.cr :: x)).received (Chr.cr :: x)).conn) (x := x) hlf (by
      change h.conn.readBuffer ++ Chr.cr :: x = _
      rw [hb]
      rfl)
  have hread : serveRead files h (Chr.cr :: x) = failWith _ 400 (text "Bad Request") :=
    (if_neg s.not_givenUp).trans (a.error hparse)
  have hr := ruined_failWith (((h.feed (Chr.cr :: x)).received (Chr.cr :: x)).update fun _ =>
    (((h.feed (Chr.cr :: x)).received (Chr.cr :: x)).conn.store s'))
  rw [← hread] at hr
  left
  rw [serve, List.foldl_cons, ← serve, serve_givenUp files hr.1]
  exact hr.2

/-- A header call that fails or loses its line. -/
theorem AtHeader.doomed {g h : Handler κ} (a : AtHeader files g h) {tail : Bytes}
    (hp : (∃ s, parseRequestHeader h.conn = (some .error, h.conn.store s)) ∨
      ∃ c, parseRequestHeader h.conn = (some .again, c) ∧ c.Broken ∧
        Closed (c.readBuffer ++ tail)) : Doomed files (handleRead files g) tail := by
  obtain ⟨s, hp⟩ | ⟨c, hp, hb, hc⟩ := hp
  · rw [a.error hp]
    exact doomed_of_givenUp (ruined_failWith _)
  · have hparsed := parsed_parseRequestHeader h.conn
    have hstate := parseRequestHeader_processState h.conn
    rw [hp] at hparsed hstate
    have hsilent : Silent (h.update fun _ => c) := a.silent.update hparsed
    rw [a.wait hp]
    exact doomed_of_lost ⟨⟨hsilent.isError, hsilent.connectionState, hsilent.writeBuffer,
      hsilent.log, hsilent.fault⟩, hstate.trans a.processState, hb⟩ hc

/-- A call that has read whole fields leaves their end to be read again. -/
theorem AtHeader.doomed_betweenLines {g h : Handler κ} (a : AtHeader files g h) {ks : List Field}
    (hks : ks ≠ []) (hs : h.conn.parseState = .start) (htame : ∀ k ∈ ks, k.Tame)
    (hshort : ∀ k ∈ ks, k.2.length ≤ 256) (hb : h.conn.readBuffer = [Chr.lf] ++ fieldLines ks)
    {tail : Bytes} (ht : tail = crlf ∨ Closed ([Chr.lf] ++ tail)) :
    Doomed files (handleRead files g) tail := by
  have hp := parseRequestHeader_betweenLines hks hs htame hshort hb
  obtain rfl | hc := ht
  · rw [a.wait hp]
    exact doomed_of_lineFeed ⟨a.silent.isError, a.silent.connectionState, a.silent.writeBuffer,
      a.silent.log, a.silent.fault⟩ a.processState rfl rfl
  · exact a.doomed (.inr ⟨_, hp, .inr ⟨rfl, rfl⟩, hc⟩)

/-- A call that stops inside a line is not resumed where it stopped. -/
theorem AtHeader.doomed_insideLine {g h : Handler κ} (a : AtHeader files g h) {ks : List Field}
    {k : Field} {u v : Bytes} (hs : h.conn.parseState = .start) (htame : ∀ k ∈ ks, k.Tame)
    (hshort : ∀ k ∈ ks, k.2.length ≤ 256)
    (hb : h.conn.readBuffer = [Chr.lf] ++ (fieldLines ks ++ u)) (hk : k.Tame)
    (hline : k.line = u ++ v) (hu : u ≠ []) (hv : v ≠ []) {tail : Bytes} (hc : Closed (u ++ tail)) :
    Doomed files (handleRead files g) tail := by
  refine a.doomed ((parseRequestHeader_insideLine hs htame hshort hb hk hline hu hv).imp id ?_)
  rintro ⟨p, x, hin, hp⟩
  refine ⟨_, hp, .inl hin, ?_⟩
  change Closed ((x ++ u) ++ tail)
  rw [List.append_assoc]
  exact hc.append x

variable (files) {r : Request} (resourceDir : Bytes) (cache : κ)

/-- A first read whose line is refused. -/
theorem serveRead_badLine {x : Bytes}
    (hl : ∀ c, (readRequestLine (requestLineOf x) c).1 = .error) : ∃ h,
    serveRead files (newConnection resourceDir cache) x = failWith h 400 (text "Bad Request") := by
  have hbody := handleReadBody_deliver files (h := (newConnection resourceDir cache).feed x) rfl rfl
  obtain ⟨g, hstage⟩ : ∃ g, lineStage files (((newConnection resourceDir cache).feed x).received x)
      = failWith g 400 (text "Bad Request") := by
    obtain ⟨c, h, -⟩ := lineStage_error files
      (h := ((newConnection resourceDir cache).feed x).received x) rfl hl
    exact ⟨_, h⟩
  have hstop : (handleReadTail (handleReadBody files
      ((newConnection resourceDir cache).feed x))).2 = false := by
    rw [hbody, hstage, handleReadTail_failWith]
  refine ⟨g, ?_⟩
  rw [serveRead_newConnection, handleRead_of_stop files hstop, hbody, hstage,
    handleReadTail_failWith]

/-- A part of the request line. -/
theorem doomed_part {x z : Bytes} (h : x ++ z = r.line) (hz : z ≠ []) (tail : Bytes) :
    Doomed files (serveRead files (newConnection resourceDir cache) x) tail := by
  have hcr : Chr.cr ∉ x := fun hx => r.cr_notMem_line (h ▸ List.mem_append_left _ hx)
  obtain ⟨g, hg⟩ := serveRead_badLine files resourceDir cache (x := x) fun c => by
    rw [requestLineOf_open hcr]
    exact Request.readRequestLine_part h hz c
  rw [hg]
  exact doomed_of_givenUp (ruined_failWith g)

/-- The whole line without its end is scanned as a header field. -/
theorem doomed_line (hr : ¬ r.Refused) {tail : Bytes} (h : r.line ++ tail = r.bytes) :
    Doomed files (serveRead files (newConnection resourceDir cache) r.line) tail := by
  obtain ⟨fileName, hfirst⟩ := atHeader_first (κ := κ) files hr
  have a := hfirst resourceDir cache r.line r.line (requestLineOf_open r.cr_notMem_line)
    (afterRequestLine_open r.cr_notMem_line)
  obtain ⟨b, u, hline⟩ : ∃ b u, r.line = b :: u := by
    rw [Request.line]
    cases r.method <;> exact ⟨_, _, rfl⟩
  rw [serveRead_newConnection]
  refine a.doomed ((parseRequestHeader_firstLine (b := b) (u := u) rfl hline
    (fun e => r.cr_notMem_line (hline ▸ e ▸ List.mem_cons_self ..)) (hline ▸ r.lf_notMem_line)).imp
    id ?_)
  rintro ⟨p, hin, hp⟩
  refine ⟨_, hp, .inl hin, ?_⟩
  change Closed (r.line ++ tail)
  rw [h, Request.bytes, ← List.append_assoc]
  exact (closed_headerBlock r.headers_ne).append _

/-- A first read that ends among the header fields. -/
theorem doomed_fields (hr : ¬ r.Refused) (hs : r.Short) {w tail : Bytes} (hw : w ≠ [])
    (h : w ++ tail = headerBlock r.headers) (ht : tail ≠ []) :
    (r.Ends ∧ tail = [Chr.lf]) ∨ Doomed files (serveRead files
      (newConnection resourceDir cache) (r.line ++ Chr.cr :: Chr.lf :: w)) tail := by
  obtain ⟨fileName, hfirst⟩ := atHeader_first (κ := κ) files hr
  have a := hfirst resourceDir cache (r.line ++ Chr.cr :: Chr.lf :: w) (Chr.lf :: w)
    (requestLineOf_append r.cr_notMem_line _) (afterRequestLine_append r.cr_notMem_line _)
  obtain ⟨ks, hks⟩ : ∃ ks, ks = scannedLines r.headers := ⟨_, rfl⟩
  have htame : ∀ k ∈ ks, k.Tame := hks ▸ tame_of_mem_scannedLines r.plain
  have hshort : ∀ k ∈ ks, k.2.length ≤ 256 := hks ▸ short_iff_scannedLines.mp hs
  have hlines := h
  rw [headerBlock_eq, ← hks] at hlines
  have hend : blockEnd r.headers = crlf ∨ blockEnd r.headers = [] := by
    rw [blockEnd]
    split
    · exact .inl rfl
    · exact .inr rfl
  rw [serveRead_newConnection]
  cases fieldCut hend hlines ht with
  | @between fs gs hfs =>
    have hne : fs ≠ [] := by
      rintro rfl
      exact hw rfl
    have hmem : ∀ k ∈ fs, k ∈ ks := fun k hk => hfs ▸ List.mem_append_left gs hk
    refine .inr (a.doomed_betweenLines hne rfl (fun k hk => htame k (hmem k hk))
      (fun k hk => hshort k (hmem k hk)) rfl ?_)
    by_cases hgs : gs = []
    · rw [hgs] at ht ⊢
      exact .inl (hend.resolve_right ht)
    · exact .inr ((closed_of_lines r.headers_ne hgs h).append [Chr.lf])
  | @inside fs gs k u v hfs hk hu hv =>
    have hmem : ∀ k' ∈ fs, k' ∈ ks := fun k' hk' => hfs ▸ List.mem_append_left _ hk'
    have hkmem : k ∈ ks := hfs ▸ List.mem_append_right fs (List.mem_cons_self ..)
    have hcut : u ++ (v ++ (fieldLines gs ++ blockEnd r.headers))
        = fieldLines (k :: gs) ++ blockEnd r.headers := by
      rw [fieldLines_cons, hk]
      simp only [List.append_assoc]
    refine .inr (a.doomed_insideLine rfl (fun k' hk' => htame k' (hmem k' hk'))
      (fun k' hk' => hshort k' (hmem k' hk')) rfl (htame k hkmem) hk hu hv ?_)
    rw [hcut]
    refine closed_of_lines r.headers_ne (w := fieldLines fs) (List.cons_ne_nil k gs) ?_
    rw [← hcut, ← List.append_assoc]
    exact h
  | emptyLine he =>
    refine .inl ⟨?_, rfl⟩
    by_contra hends
    rw [blockEnd, if_neg (show ¬ Ends r.headers from hends)] at he
    exact absurd he.symm (List.cons_ne_nil _ _)

/-- **A first read that ends elsewhere** than at the end of the request line or before the last
byte. -/
theorem doomed_cut (hr : ¬ r.Refused) (hs : r.Short) {x tail : Bytes} (h : x ++ tail = r.bytes)
    (ht : tail ≠ []) : LineEnd r x ∨ (r.Ends ∧ x = r.allButLast) ∨
      Doomed files (serveRead files (newConnection resourceDir cache) x) tail := by
  obtain ⟨z, hz, htail⟩ | ⟨w, rfl, hrest⟩ := List.append_eq_append_iff.mp h
  · by_cases hne : z = []
    · rw [hne, List.append_nil] at hz
      rw [← hz] at h ⊢
      exact .inr (.inr (doomed_line files resourceDir cache hr h))
    · exact .inr (.inr (doomed_part files resourceDir cache hz.symm hne tail))
  · rcases w with _ | ⟨b, _ | ⟨c, w⟩⟩
    · rw [List.append_nil] at h ⊢
      exact .inr (.inr (doomed_line files resourceDir cache hr h))
    · obtain ⟨rfl, -⟩ := List.cons.inj hrest
      exact .inl (.inl rfl)
    · obtain ⟨hb, hnext⟩ := List.cons.inj hrest
      obtain ⟨hc, hfields⟩ := List.cons.inj hnext
      rw [← hb, ← hc]
      by_cases hne : w = []
      · rw [hne]
        exact .inl (.inr rfl)
      · obtain ⟨he, rfl⟩ | hd := doomed_fields files resourceDir cache hr hs hne hfields.symm ht
        · refine .inr (.inl ⟨he, ?_⟩)
          rw [← hb, ← hc] at h
          exact List.append_cancel_right (h.trans r.allButLast_append.symm)
        · exact .inr (.inr hd)

end FirstRead

/-! ## Cuts at the end of the request line -/

section Merge

variable {r : Request} {x y : Bytes} {rest : List Bytes}

/-- Two reads, the first of which ends with the request line, are as good as one. -/
theorem serve_lineEnd (hr : ¬ r.Refused) (hx : LineEnd r x) (files : FileSystem)
    (resourceDir : Bytes) (cache : Cache.LFUCache) :
    (serve files (newConnection resourceDir cache) [x]).conn.isError = false ∧
    r.Records (serve files (newConnection resourceDir cache) [x]).conn.requestHeaders ∧
    (serve files (newConnection resourceDir cache) [x]).answers = [] ∧
    ∀ y rest, serve files (newConnection resourceDir cache) (x :: y :: rest)
      = serve files (newConnection resourceDir cache) ((x ++ y) :: rest) := by
  obtain ⟨z, hz, rfl⟩ : ∃ z, (z = [] ∨ z = [Chr.lf]) ∧ x = r.line ++ Chr.cr :: z := by
    obtain rfl | rfl := hx
    · exact ⟨[], .inl rfl, rfl⟩
    · exact ⟨[Chr.lf], .inr rfl, rfl⟩
  obtain ⟨fileName, hread⟩ := serveRead_lineEnd (κ := Cache.LFUCache) files hr
  obtain ⟨hone, htwo⟩ := hread resourceDir cache z hz
  have hserve : serve files (newConnection resourceDir cache) [r.line ++ Chr.cr :: z] = _ := hone
  refine ⟨?_, ?_, ?_, fun y rest => ?_⟩
  · rw [hserve]
    rfl
  · rw [hserve]
    exact r.records_none
  · rw [hserve]
    rfl
  · have hassoc : r.line ++ Chr.cr :: z ++ y = r.line ++ Chr.cr :: (z ++ y) := by
      rw [List.append_assoc, List.cons_append]
    rw [serve, List.foldl_cons, List.foldl_cons, htwo, hassoc]
    rfl

/-- Taking such a cut back. -/
theorem Independent.merge (hr : ¬ r.Refused) (hx : LineEnd r x)
    (h : Independent r (x :: y :: rest)) : Independent r ((x ++ y) :: rest) := by
  have hserve := fun files d c => (serve_lineEnd hr hx files d c).2.2.2
  refine ⟨fun files d c => (hserve files d c y rest) ▸ h.ending_eq files d c, ?_, ?_⟩
  · rintro (_ | ⟨b, before⟩) after hcut hne files d c
    · rfl
    · obtain ⟨rfl, rfl⟩ := List.cons.inj hcut
      rw [← hserve files d c y before]
      exact h.isError (x :: y :: before) after rfl hne files d c
  · rintro (_ | ⟨b, before⟩) after hcut hne files d c
    · exact ⟨r.records_none, fun a ha => absurd ha List.not_mem_nil⟩
    · obtain ⟨rfl, rfl⟩ := List.cons.inj hcut
      rw [← hserve files d c y before]
      exact h.records (x :: y :: before) after rfl hne files d c

/-- Making such a cut. -/
theorem Independent.split (hr : ¬ r.Refused) (hx : LineEnd r x)
    (h : Independent r ((x ++ y) :: rest)) : Independent r (x :: y :: rest) := by
  have hserve := fun files d c => (serve_lineEnd hr hx files d c).2.2.2
  refine ⟨fun files d c => (hserve files d c y rest).symm ▸ h.ending_eq files d c, ?_, ?_⟩
  · rintro (_ | ⟨b, _ | ⟨b', before⟩⟩) after hcut hne files d c
    · rfl
    · obtain ⟨rfl, -⟩ := List.cons.inj hcut
      exact (serve_lineEnd hr hx files d c).1
    · obtain ⟨rfl, hnext⟩ := List.cons.inj hcut
      obtain ⟨rfl, rfl⟩ := List.cons.inj hnext
      rw [hserve files d c b' before]
      exact h.isError ((b ++ b') :: before) after rfl hne files d c
  · rintro (_ | ⟨b, _ | ⟨b', before⟩⟩) after hcut hne files d c
    · exact ⟨r.records_none, fun a ha => absurd ha List.not_mem_nil⟩
    · obtain ⟨rfl, -⟩ := List.cons.inj hcut
      obtain ⟨-, hm, ha, -⟩ := serve_lineEnd hr hx files d c
      exact ⟨hm, fun a h => absurd (ha ▸ h) List.not_mem_nil⟩
    · obtain ⟨rfl, hnext⟩ := List.cons.inj hcut
      obtain ⟨rfl, rfl⟩ := List.cons.inj hnext
      rw [hserve files d c b' before]
      exact h.records ((b ++ b') :: before) after rfl hne files d c

end Merge

/-! ## The cut before the last byte -/

/-- **A request that can do without its last byte**: the scanner finds its end and has recorded its
fields as they are, and it is read as a `POST`, whose body the line feed that is left over does not
complete. -/
structure Request.LateCut (r : Request) : Prop where
  short : r.Short
  ends : r.Ends
  records : r.Records r.headerMap
  readMethod : r.readMethod = .post
  length : ∀ value, r.headerMap (text "Content-length") = some value → stoi value ≠ some 1

/-- `std::stoi` answers an `int`. -/
theorem stoi_range {s : Bytes} {n : ℤ} (h : stoi s = some n) : -2 ^ 31 ≤ n ∧ n < 2 ^ 31 := by
  have key : ∀ (ds : Bytes) (m : ℤ), (if ds = [] then none
      else if -2 ^ 31 ≤ m ∧ m < 2 ^ 31 then some m else none) = some n →
      -2 ^ 31 ≤ n ∧ n < 2 ^ 31 := by
    intro ds m hm
    split at hm
    · exact absurd hm (by simp)
    · split at hm
      · next hrange =>
        obtain rfl := Option.some.inj hm
        exact hrange
      · exact absurd hm (by simp)
  exact key _ _ h

section Late

variable {r : Request}

/-- A byte more or less behind the header. -/
theorem Request.postEnding_one {κ : Type*} (h : Handler κ)
    (hl : ∀ value, r.headerMap (text "Content-length") = some value → stoi value ≠ some 1) :
    r.postEnding h 1 = r.postEnding h 0 := by
  rw [postEnding, postEnding]
  split
  · rfl
  · next value hv =>
    split
    · rfl
    · next n hn =>
      have hne : n ≠ 1 := by
        rintro rfl
        exact hl value hv hn
      have hrange := stoi_range hn
      have hiff : ((1 : ℕ) : ℤ) < n % 2 ^ 64 ↔ ((0 : ℕ) : ℤ) < n % 2 ^ 64 := by omega
      simp only [hiff]

/-- A length of one byte makes the difference. -/
theorem Request.postEnding_one_ne {κ : Type*} {fileName resourceDir : Bytes} {cache : κ}
    {value : Bytes} (hv : r.headerMap (text "Content-length") = some value)
    (hn : stoi value = some 1) : r.postEnding (r.atBody fileName resourceDir cache []) 1
      ≠ r.postEnding (r.atBody fileName resourceDir cache []) 0 := by
  intro h
  simp only [postEnding, hv, hn] at h
  rw [if_neg (by decide), if_pos (by decide)] at h
  exact absurd (congrArg Ending.answers h) (List.cons_ne_nil _ _)

/-- What comes before the end of two reads. -/
theorem before_pair {x y : Bytes} : ∀ {before after : List Bytes}, before ++ after = [x, y] →
    after ≠ [] → before = [] ∨ before = [x]
  | [], _, _, _ => .inl rfl
  | [b], _, h, _ => .inr (by rw [(List.cons.inj h).1])
  | b :: b' :: before, after, h, hne =>
      absurd (List.append_eq_nil_iff.mp (List.cons.inj (List.cons.inj h).2).2).2 hne

theorem independent_late (hr : ¬ r.Refused) (hl : r.LateCut) :
    Independent r [r.allButLast, [Chr.lf]] := by
  refine ⟨fun files d c => ?_, ?_, ?_⟩
  · obtain ⟨fileName, hbody⟩ := handleReadBody_whole (κ := Cache.LFUCache) files hr hl.short hl.ends
    obtain ⟨hwhole, -, -, -, hg, hlate⟩ := hbody d c
    rw [serve_late hg, serve_whole, ending_post hwhole hl.readMethod,
      ending_post hlate hl.readMethod]
    exact r.postEnding_one _ hl.length
  · intro before after hcut hne files d c
    obtain ⟨fileName, hbody⟩ := handleReadBody_whole (κ := Cache.LFUCache) files hr hl.short hl.ends
    obtain ⟨-, herror, -⟩ := hbody d c
    obtain rfl | rfl := before_pair hcut hne
    · rfl
    · exact herror
  · intro before after hcut hne files d c
    obtain ⟨fileName, hbody⟩ := handleReadBody_whole (κ := Cache.LFUCache) files hr hl.short hl.ends
    obtain ⟨-, -, hmap, hanswers, -⟩ := hbody d c
    obtain rfl | rfl := before_pair hcut hne
    · exact ⟨r.records_none, fun a ha => absurd ha List.not_mem_nil⟩
    · refine ⟨?_, fun a ha => absurd (hanswers ▸ ha) List.not_mem_nil⟩
      change r.Records (serveRead files (newConnection d c) r.allButLast).conn.requestHeaders
      rw [hmap]
      exact hl.records

end Late

/-! ## The safe cuts -/

/-- **A safe cut**: behind the CR or behind the line feed of a request line that is taken, or before
the last byte of a request that can do without it. -/
def Request.SafeCut (r : Request) (p : ℕ) : Prop :=
  ¬ r.Refused ∧ (p = r.line.length + 1 ∨ p = r.line.length + 2 ∨
    (p + 1 = r.bytes.length ∧ r.LateCut))

/-- Every cut is safe. -/
def Request.SafeCuts (r : Request) (reads : List Bytes) : Prop := ∀ p ∈ cuts reads, r.SafeCut p

section SafeCuts

variable {r : Request}

theorem safeCuts_cons {x y : Bytes} {rest : List Bytes} : r.SafeCuts (x :: y :: rest) ↔
    r.SafeCut x.length ∧ r.SafeCuts ((x ++ y) :: rest) := by
  rw [Request.SafeCuts, cuts_merge, List.forall_mem_cons, Request.SafeCuts]

theorem lineEnd_of_length {x tail : Bytes} (h : x ++ tail = r.bytes)
    (hx : x.length = r.line.length + 1 ∨ x.length = r.line.length + 2) : LineEnd r x := by
  obtain hx | hx := hx
  · have hcut : r.bytes = (r.line ++ [Chr.cr]) ++ Chr.lf :: r.fieldBytes := by
      rw [Request.bytes, List.append_assoc]
      rfl
    exact .inl (List.append_inj_left (h.trans hcut) (by rw [hx, List.length_append]; rfl))
  · have hcut : r.bytes = (r.line ++ [Chr.cr, Chr.lf]) ++ r.fieldBytes := by
      rw [Request.bytes, List.append_assoc]
    exact .inr (List.append_inj_left (h.trans hcut) (by rw [hx, List.length_append]; rfl))

theorem LineEnd.length {x : Bytes} (h : LineEnd r x) :
    x.length = r.line.length + 1 ∨ x.length = r.line.length + 2 := by
  obtain rfl | rfl := h
  · exact .inl (List.length_append ..)
  · exact .inr (List.length_append ..)

theorem length_allButLast (r : Request) : r.allButLast.length + 1 = r.bytes.length := by
  rw [← r.allButLast_append, List.length_append, List.length_singleton]

/-- A rest of one byte arrives in one read. -/
theorem rest_of_last {y : Bytes} {rest : List Bytes} (hseg : ∀ segment ∈ y :: rest, segment ≠ [])
    (h : (y :: rest).flatten = [Chr.lf]) : y = [Chr.lf] ∧ rest = [] := by
  obtain ⟨b, y, rfl⟩ := List.exists_cons_of_ne_nil (hseg y (List.mem_cons_self ..))
  rw [List.flatten_cons] at h
  obtain ⟨rfl, hnil⟩ := List.cons.inj h
  obtain ⟨rfl, hrest⟩ := List.append_eq_nil_iff.mp hnil
  refine ⟨rfl, ?_⟩
  cases rest with
  | nil => rfl
  | cons z rest =>
    have hz := hseg z (List.mem_cons_of_mem _ (List.mem_cons_self ..))
    exact absurd (List.append_eq_nil_iff.mp hrest).1 hz

/-- The reads when the first two arrive as one. -/
theorem merged_nonempty {x y : Bytes} {rest : List Bytes}
    (h : ∀ segment ∈ x :: y :: rest, segment ≠ []) :
    ∀ segment ∈ (x ++ y) :: rest, segment ≠ [] := by
  intro segment hs
  obtain rfl | hs := List.mem_cons.mp hs
  · exact fun e => h x (List.mem_cons_self ..) (List.append_eq_nil_iff.mp e).1
  · exact h segment (List.mem_cons_of_mem _ (List.mem_cons_of_mem _ hs))

theorem independent_single (r : Request) : Independent r [r.bytes] := by
  have hnil : ∀ {before after : List Bytes}, before ++ after = [r.bytes] → after ≠ [] →
      before = [] := by
    intro before after h hne
    obtain ⟨rfl, -⟩ | ⟨-, rfl⟩ := List.append_eq_singleton_iff.mp h
    · rfl
    · exact absurd rfl hne
  refine ⟨fun _ _ _ => rfl, ?_, ?_⟩
  · intro before after h hne files d c
    rw [hnil h hne]
    rfl
  · intro before after h hne files d c
    rw [hnil h hne]
    exact ⟨r.records_none, fun a ha => absurd ha List.not_mem_nil⟩

/-- **Safe cuts do no harm.** -/
theorem independent_of_safeCuts : ∀ {reads : List Bytes}, (∀ segment ∈ reads, segment ≠ []) →
    reads.flatten = r.bytes → r.SafeCuts reads → Independent r reads
  | [], _, hflat, _ => by
      rw [List.flatten_nil, Request.bytes] at hflat
      exact absurd (List.append_eq_nil_iff.mp hflat.symm).2 (List.cons_ne_nil _ _)
  | [x], _, hflat, _ => by
      rw [List.flatten_singleton] at hflat
      rw [hflat]
      exact independent_single r
  | x :: y :: rest, hseg, hflat, hsafe => by
      obtain ⟨⟨hr, hx⟩, hrest⟩ := safeCuts_cons.mp hsafe
      have hflat' : ((x ++ y) :: rest).flatten = r.bytes := by
        rw [List.flatten_cons, List.append_assoc]
        exact hflat
      have hmerged := fun hl : LineEnd r x =>
        (independent_of_safeCuts (merged_nonempty hseg) hflat' hrest).split hr hl
      rw [List.flatten_cons] at hflat
      obtain hx | hx | ⟨hx, hlate⟩ := hx
      · exact hmerged (lineEnd_of_length hflat (.inl hx))
      · exact hmerged (lineEnd_of_length hflat (.inr hx))
      · have hlen : x.length = r.allButLast.length := by
          have := length_allButLast r
          omega
        obtain ⟨rfl, hlast⟩ := List.append_inj (hflat.trans r.allButLast_append.symm) hlen
        obtain ⟨rfl, rfl⟩ :=
          rest_of_last (fun s hs => hseg s (List.mem_cons_of_mem _ hs)) hlast
        exact independent_late hr hlate
termination_by reads => reads.length

/-! ### Every other cut does harm -/

theorem Independent.not_refused {x y : Bytes} {rest : List Bytes}
    (hflat : (x :: y :: rest).flatten = r.bytes) (h : Independent r (x :: y :: rest)) :
    ¬ r.Refused := by
  intro hr
  have hline : ∀ c, (readRequestLine (requestLineOf x) c).1 = .error := by
    intro c
    obtain ⟨z, hz, -⟩ | ⟨w, rfl, hw⟩ := List.append_eq_append_iff.mp (List.flatten_cons ▸ hflat)
    · have hcr : Chr.cr ∉ x := fun hx => r.cr_notMem_line (hz ▸ List.mem_append_left _ hx)
      rw [requestLineOf_open hcr]
      by_cases hne : z = []
      · rw [hne, List.append_nil] at hz
        rw [← hz]
        exact Request.readRequestLine_refused hr c
      · exact Request.readRequestLine_part hz.symm hne c
    · rcases w with _ | ⟨b, w⟩
      · rw [List.append_nil, requestLineOf_open r.cr_notMem_line]
        exact Request.readRequestLine_refused hr c
      · obtain ⟨rfl, -⟩ := List.cons.inj hw
        rw [requestLineOf_append r.cr_notMem_line]
        exact Request.readRequestLine_refused hr c
  obtain ⟨g, hg⟩ := serveRead_badLine oneByteFiles [] emptyCache hline
  have herror := h.isError [x] (y :: rest) rfl (List.cons_ne_nil _ _) oneByteFiles [] emptyCache
  change (serveRead oneByteFiles (newConnection [] emptyCache) x).conn.isError = false at herror
  rw [hg] at herror
  exact absurd herror (by simp [failWith, returnErrorMessage, markError])

/-- A request that is cut before its last byte, and could not do without it. -/
theorem Independent.lateCut (hr : ¬ r.Refused) (hs : r.Short) (he : r.Ends)
    (h : Independent r [r.allButLast, [Chr.lf]]) : r.LateCut := by
  obtain ⟨fileName, hbody⟩ := handleReadBody_whole (κ := Cache.LFUCache) oneByteFiles hr hs he
  obtain ⟨hwhole, -, hmap, -, hg, hlate⟩ := hbody [] emptyCache
  have heq := h.ending_eq oneByteFiles [] emptyCache
  have hm : r.readMethod = .post := by
    by_contra hm
    have hruined := (served_bodyStage hm [Chr.lf]).ruined hlate
    rw [← serve_late hg] at hruined
    exact not_ruined_whole hr hs (hruined.of_ending heq)
  refine ⟨hs, he, ?_, hm, fun value hv hn => ?_⟩
  · rw [← hmap]
    exact (h.records [r.allButLast] [[Chr.lf]] rfl (List.cons_ne_nil _ _) oneByteFiles []
      emptyCache).1
  · rw [serve_late hg, serve_whole, ending_post hwhole hm, ending_post hlate hm] at heq
    exact Request.postEnding_one_ne hv hn heq

/-- **Every cut that does no harm is safe**, where no value is too long. -/
theorem safeCuts_of_independent (hs : r.Short) : ∀ {reads : List Bytes},
    (∀ segment ∈ reads, segment ≠ []) → reads.flatten = r.bytes → Independent r reads →
    r.SafeCuts reads
  | [], _, _, _ => fun _ hp => absurd hp List.not_mem_nil
  | [x], _, _, _ => fun _ hp => absurd hp List.not_mem_nil
  | x :: y :: rest, hseg, hflat, h => by
      have hr := h.not_refused hflat
      have htail : (y :: rest).flatten ≠ [] := by
        rw [List.flatten_cons]
        exact fun e => hseg y (List.mem_cons_of_mem _ (List.mem_cons_self ..))
          (List.append_eq_nil_iff.mp e).1
      have hcut : x ++ (y :: rest).flatten = r.bytes := List.flatten_cons ▸ hflat
      obtain hl | ⟨he, rfl⟩ | hd := doomed_cut oneByteFiles [] emptyCache hr hs hcut htail
      · have hflat' : ((x ++ y) :: rest).flatten = r.bytes := by
          rw [List.flatten_cons, List.append_assoc]
          exact hflat
        refine safeCuts_cons.mpr ⟨⟨hr, hl.length.imp_right .inl⟩, ?_⟩
        exact safeCuts_of_independent hs (merged_nonempty hseg) hflat' (h.merge hr hl)
      · have hlast : (y :: rest).flatten = [Chr.lf] :=
          List.append_cancel_left (hcut.trans r.allButLast_append.symm)
        obtain ⟨rfl, rfl⟩ := rest_of_last (fun s hs => hseg s (List.mem_cons_of_mem _ hs)) hlast
        refine safeCuts_cons.mpr ⟨⟨hr, .inr (.inr ⟨length_allButLast r, h.lateCut hr hs he⟩)⟩, ?_⟩
        exact fun _ hp => absurd hp List.not_mem_nil
      · obtain hruined | ⟨before, after, hba, hne, hspoiled⟩ := hd (y :: rest)
          (List.cons_ne_nil _ _) (fun s hs => hseg s (List.mem_cons_of_mem _ hs)) rfl
        · exact absurd (hruined.of_ending (h.ending_eq oneByteFiles [] emptyCache))
            (not_ruined_whole hr hs)
        · obtain ⟨hm, ha⟩ := h.records (x :: before) after (congrArg (x :: ·) hba) hne
            oneByteFiles [] emptyCache
          obtain ht | ⟨a, hmem, ht⟩ := hspoiled
          · exact absurd hm.names (ht.not_names r)
          · exact absurd (ha a hmem).names (ht.not_names r)
termination_by reads => reads.length

/-- **Where a request may be cut**: safe cuts do no harm, and where no value is too long for the
scanner, no other cut is without harm. -/
theorem independent_iff (r : Request) (s : Segmentation r) :
    (r.SafeCuts s.reads → Independent r s.reads) ∧
      (r.Short → (Independent r s.reads ↔ r.SafeCuts s.reads)) :=
  ⟨independent_of_safeCuts s.nonempty s.flatten, fun hs =>
    ⟨safeCuts_of_independent hs s.nonempty s.flatten,
      independent_of_safeCuts s.nonempty s.flatten⟩⟩

end SafeCuts

/-- `GET /x` in two reads, the first of which holds its first two letters. -/
def Request.getXInTwo : Segmentation .getX where
  reads := [text "GE", Request.getX.bytes.drop 2]
  nonempty := by decide
  flatten := by decide

theorem not_independent_getX : ¬ Independent .getX Request.getXInTwo.reads := by
  intro h
  have herror := h.isError [text "GE"] [Request.getX.bytes.drop 2] rfl (List.cons_ne_nil _ _)
    oneByteFiles [] emptyCache
  obtain ⟨g, hg⟩ := serveRead_badLine oneByteFiles [] emptyCache (x := text "GE")
    fun _ => rfl
  have hserve : serve oneByteFiles (newConnection [] emptyCache) [text "GE"] = _ := hg
  rw [hserve] at herror
  exact absurd herror (by simp [failWith, returnErrorMessage, markError])

end WebServer.Http
