import WebServer.Http.LineText

/-!
# Http/RequestLine — decoding an encoded request line

A request line is written from a method, a path, perhaps a query, and a version.  `ParseRequestLine`
looks for its method anywhere in the line, `GET` first, so it gets back what was written only if the
target names no method that is looked for earlier; and a query on the empty path hides the default
page (`decoded_iff`).
-/

namespace WebServer.Http

/-- **What a request line is written from.** -/
structure RequestLine where
  method : RequestMethod
  path : Bytes
  query : Option Bytes
  version : HttpVersion
  path_ok : ∀ b ∈ path, b ≠ Chr.space ∧ b ≠ Chr.cr ∧ b ≠ Chr.question
  query_ok : ∀ q ∈ query, ∀ b ∈ q, b ≠ Chr.space ∧ b ≠ Chr.cr

namespace RequestLine

/-- What stands between the slash and the blank. -/
def target (l : RequestLine) : Bytes :=
  l.path ++ match l.query with
    | none => []
    | some q => Chr.question :: q

/-- **The bytes of a line.** -/
def encode (l : RequestLine) : Bytes :=
  methodWord l.method ++ Chr.space :: Chr.slash :: (l.target ++ Chr.space ::
    (text "HTTP" ++ Chr.slash :: versionText l.version))

/-- The file a line asks for. -/
def fileName (l : RequestLine) : Bytes := if l.path = [] then text "index.html" else l.path

/-- **The target names a method** that is looked for before the line's own. -/
def Shadowed (l : RequestLine) : Prop := ∃ m ∈ earlier l.method, methodWord m <:+: l.target

/-- **What was written is read back**: the line is taken, with its parts, and what follows its CR is
left in the buffer. -/
structure Decoded (l : RequestLine) (rest : Bytes) (r : LineState × HttpConnection) : Prop where
  state : r.1 = .success
  method : r.2.method = l.method
  version : r.2.version = l.version
  fileName : r.2.fileName = l.fileName
  readBuffer : r.2.readBuffer = Chr.lf :: rest

variable {l : RequestLine}

theorem space_notMem_target (l : RequestLine) : Chr.space ∉ l.target := by
  intro h
  rw [target, List.mem_append] at h
  rcases h with h | h
  · exact (l.path_ok _ h).1 rfl
  · cases hq : l.query with
    | none => simp [hq] at h
    | some q =>
      rw [hq, List.mem_cons] at h
      exact h.elim (by decide) fun h => (l.query_ok q hq _ h).1 rfl

theorem cr_notMem_target (l : RequestLine) : Chr.cr ∉ l.target := by
  intro h
  rw [target, List.mem_append] at h
  rcases h with h | h
  · exact (l.path_ok _ h).2.1 rfl
  · cases hq : l.query with
    | none => simp [hq] at h
    | some q =>
      rw [hq, List.mem_cons] at h
      exact h.elim (by decide) fun h => (l.query_ok q hq _ h).2 rfl

theorem cr_notMem_encode (l : RequestLine) : Chr.cr ∉ l.encode := by
  have hword : Chr.cr ∉ methodWord l.method := by cases l.method <;> decide
  have hversion : Chr.cr ∉ versionText l.version := by cases l.version <;> decide
  have hhttp : Chr.cr ∉ text "HTTP" := by decide
  simp only [encode, List.mem_append, List.mem_cons, not_or]
  exact ⟨hword, by decide, by decide, l.cr_notMem_target, by decide, hhttp, by decide, hversion⟩

/-! ## The method -/

/-- A method's word behind another method's is found where it stands in the target. -/
theorem findStr_encode {m : RequestMethod} (hm : m ∈ earlier l.method) :
    findStr (methodWord m) l.encode
      = (findStr (methodWord m) l.target).map (· + (methodWord l.method).length + 2) := by
  obtain ⟨b, pat, hpat⟩ := List.exists_cons_of_ne_nil (show methodWord m ≠ [] by
    cases m <;> exact List.cons_ne_nil _ _)
  have hb : b ∉ methodWord l.method ++ [Chr.space, Chr.slash] := by
    revert hm hpat
    cases l.method <;> cases m <;> rintro hm ⟨⟩ <;> revert hm <;> decide
  have hspace : Chr.space ∉ b :: pat := hpat ▸ by cases m <;> decide
  have hend : findStr (b :: pat) (Request.lineEnd l.version) = none := by
    rw [← hpat]
    cases m <;> cases l.version <;> decide
  have hcut : l.encode = (methodWord l.method ++ [Chr.space, Chr.slash])
      ++ (l.target ++ Request.lineEnd l.version) := by
    rw [encode]
    simp [Request.lineEnd]
  rw [hpat, hcut, findStr_skip hb, findStr_append hspace (List.cons_ne_nil _ _) hend]
  simp [Nat.add_assoc]

/-- Its own word begins the line. -/
theorem findStr_own (l : RequestLine) : findStr (methodWord l.method) l.encode = some 0 := by
  rw [encode]
  cases l.method <;> rfl

/-- A word that is looked for earlier is found exactly if the target names it. -/
theorem findStr_earlier {m : RequestMethod} (hm : m ∈ earlier l.method) :
    findStr (methodWord m) l.encode = none ↔ ¬ methodWord m <:+: l.target := by
  rw [findStr_encode hm, Option.map_eq_none_iff, findStr_eq_none_iff]

/-- **The method of a line that is not shadowed.** -/
theorem lineMethod_encode (hs : ¬ l.Shadowed) : lineMethod l.encode = some (l.method, 0) := by
  refine lineMethod_eq l.findStr_own fun m hm => (findStr_earlier hm).mpr fun h => hs ⟨m, hm, h⟩

/-- **A shadowed line is read as another method.** -/
theorem lineMethod_shadowed (hs : l.Shadowed) : ∃ m p, lineMethod l.encode = some (m, p) ∧
    m ≠ l.method := by
  obtain ⟨m, hm, hin⟩ := hs
  have hfound : findStr (methodWord m) l.encode ≠ none := fun h => (findStr_earlier hm).mp h hin
  obtain ⟨p, hp⟩ := Option.ne_none_iff_exists'.mp hfound
  rw [lineMethod]
  cases hget : findStr (text "GET") l.encode with
  | some q =>
    refine ⟨.get, q, rfl, fun e => ?_⟩
    rw [← e] at hm
    exact absurd hm List.not_mem_nil
  | none =>
    cases m with
    | get => exact absurd (hget.symm.trans hp) (by simp)
    | head => exact absurd hm (by cases l.method <;> decide)
    | post =>
      simp only [methodWord] at hp
      refine ⟨.post, p, by rw [hp], fun e => ?_⟩
      rw [← e] at hm
      exact absurd hm (by decide)

/-! ## The file name and the version -/

/-- **The name a line asks for** is read off the target, up to its `?`. -/
theorem nameBehind_encode (l : RequestLine) :
    NameBehind (Chr.space :: Chr.slash :: (l.target ++ Request.lineEnd l.version))
      (if l.target = [] then text "index.html" else l.path) := by
  have hgap : Chr.slash ∉ [Chr.space] := by decide
  split
  · next ht =>
    rw [ht]
    exact .blank hgap
  · next ht =>
    have hspace : Chr.space ∉ l.path := fun h => (l.path_ok _ h).1 rfl
    have hquestion : Chr.question ∉ l.path := fun h => (l.path_ok _ h).2.2 rfl
    rw [target] at ht ⊢
    rw [List.append_assoc]
    refine NameBehind.name hgap hspace hquestion fun b hb => ?_
    cases hq : l.query with
    | none =>
      rw [hq] at hb ht
      exact .inr ⟨(Option.some.inj hb).symm, fun hnil => ht (by rw [hnil, List.nil_append])⟩
    | some q =>
      rw [hq] at hb
      exact .inl (Option.some.inj hb).symm

theorem lineFileName_encode (l : RequestLine) : lineFileName l.encode
      (findChar l.encode Chr.slash (some 0))
      (findChar l.encode Chr.space (findChar l.encode Chr.slash (some 0)))
    = if l.target = [] then text "index.html" else l.path :=
  lineFileName_eq l.nameBehind_encode [] (slash_notMem_methodWord l.method) rfl

/-- **What a line that is not shadowed is read as.** -/
theorem readRequestLine_encode (hs : ¬ l.Shadowed) (c : HttpConnection) :
    readRequestLine l.encode c = (.success, { c with
      method := l.method
      fileName := if l.target = [] then text "index.html" else l.path
      version := l.version }) := by
  have hword : Chr.slash ∉ methodWord l.method ++ [Chr.space] := by
    cases l.method <;> decide
  have hwhole : l.encode = [] ++ ((methodWord l.method ++ [Chr.space]) ++ Chr.slash ::
      (l.target ++ Request.lineEnd l.version)) := by
    rw [encode]
    simp [Request.lineEnd]
  have hversion := Request.lineVersion_line hword l.space_notMem_target hwhole
  rw [List.length_nil] at hversion
  rw [readRequestLine, lineMethod_encode hs]
  simp only [hversion, lineFileName_encode]

/-- A shadowed line sets another method. -/
theorem readRequestLine_shadowed (hs : l.Shadowed) (c : HttpConnection) :
    (readRequestLine l.encode c).2.method ≠ l.method := by
  obtain ⟨m, p, hm, hne⟩ := lineMethod_shadowed hs
  rw [readRequestLine, hm]
  dsimp only
  split <;> exact hne

/-- **Decoding undoes encoding** exactly if the target names no method that is looked for before the
line's own, and the empty path has no query. -/
theorem decoded_iff (l : RequestLine) (rest : Bytes) (c : HttpConnection) :
    l.Decoded rest (parseRequestLine { c with readBuffer := l.encode ++ (crlf ++ rest) }) ↔
      ¬ l.Shadowed ∧ (l.path = [] → l.query = none) := by
  have hbuffer : l.encode ++ (crlf ++ rest) = l.encode ++ Chr.cr :: (Chr.lf :: rest) := rfl
  rw [hbuffer, parseRequestLine]
  dsimp only
  rw [requestLineOf_append l.cr_notMem_encode, afterRequestLine_append l.cr_notMem_encode]
  by_cases hs : l.Shadowed
  · exact ⟨fun h => absurd h.method (readRequestLine_shadowed hs _), fun h => absurd hs h.1⟩
  · rw [readRequestLine_encode hs]
    have hname : (if l.target = [] then text "index.html" else l.path) = l.fileName ↔
        (l.path = [] → l.query = none) := by
      rw [target, fileName]
      by_cases hp : l.path = []
      · cases hq : l.query with
        | none => simp [hp]
        | some q =>
          have : text "index.html" ≠ [] := by decide
          simp [hp, this.symm]
      · simp [hp]
    exact ⟨fun h => ⟨hs, hname.mp h.fileName⟩, fun h => ⟨rfl, rfl, rfl, hname.mpr h.2, rfl⟩⟩

/-- A line without a query has nothing to be checked in it. -/
theorem query_ok_none : ∀ q ∈ (none : Option Bytes), ∀ b ∈ q, b ≠ Chr.space ∧ b ≠ Chr.cr := nofun

/-- `HEAD /GET HTTP/1.1` -/
def headGet : RequestLine where
  method := .head
  path := text "GET"
  query := none
  version := .http11
  path_ok := by decide +kernel
  query_ok := query_ok_none

/-- **A `HEAD` of a page with another method's name** is not read back. -/
theorem not_decoded_headGet : ¬ headGet.Decoded [] (parseRequestLine
    { resourceDir := text "/pages/", readBuffer := headGet.encode ++ (crlf ++ []) }) :=
  fun h => absurd h.method (by decide)

end RequestLine

end WebServer.Http
