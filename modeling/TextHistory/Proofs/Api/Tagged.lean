import TextHistory.Api
import TextHistory.Proofs.History.Expectation
import TextHistory.Proofs.Http.EntityTag

/-!
# Tagged answers

Two routes show the text of a version, and both tag it. What they have in common is an excerpt: the
name of a file, a version and its text (`Api.TextRoute.excerpt`). The tag is made from the excerpt
alone, and so is the body of the one route; the body of the other also tells how long the chain is
(`Api.TextRoute.body`).

A client that holds a tag is answered with the tag alone while the tag is the current one
(`Api.not_modified_keeps_excerpt`). What it holds is then still the excerpt that it would be shown.
Where the body is made from the excerpt alone it is still the body too. The length of the chain may
have grown in between, and then the body has changed under the same tag
(`Api.not_modified_misses_growth`).
-/

set_option autoImplicit false

namespace TextHistory

/-! ## Reading -/

namespace History

variable {o : Tuning} {s : Store} {name : Text}

/-- What is told of a file with its latest text. -/
theorem latest_of_ok {l : Latest} (h : latest o s name = .ok l) :
    l.name = name ∧ l.versionCount ≤ s.count name := by
  rw [latest] at h
  obtain ⟨found, hfind, h⟩ := Outcome.bind_eq_ok_iff.mp h
  cases found with
  | none =>
      cases h
      exact ⟨rfl, Nat.zero_le _⟩
  | some f =>
      obtain ⟨v, hv, h⟩ := Outcome.bind_eq_ok_iff.mp h
      cases h
      have htotal : v.totalVersions = s.count name :=
        (TrackedFile.totalVersions_of_versionAt hv).trans (Store.count_of_find hfind).symm
      exact ⟨Store.name_of_find hfind, Nat.le_of_eq htotal⟩

/-- What is told of a file with the text of a version. -/
theorem version_of_ok {which : VersionName} {v : VersionText}
    (h : version o s name which = .ok v) :
    v.totalVersions = s.count name ∧ ∀ n, v.version = some n → n < s.count name := by
  obtain ⟨f, htracked, hv⟩ := Outcome.bind_eq_ok_iff.mp h
  obtain ⟨found, hfind, htracked⟩ := Outcome.bind_eq_ok_iff.mp htracked
  cases found with
  | none => cases htracked
  | some g =>
      cases htracked
      rw [Store.count_of_find hfind]
      refine ⟨TrackedFile.totalVersions_of_versionAt hv, fun n hn => ?_⟩
      rw [TrackedFile.version_of_versionAt hv] at hn
      exact VersionName.resolve_lt hn

end History

namespace Api

variable {c : Config} {s : Store} {now : Clock} {q q' : Request}

/-! ## Chains only grow -/

theorem retains_answer (name : Text) (c : Config) (s : Store) (now : Clock) (q : Request) :
    Store.Retains name s (answer c s now q).1 := by
  have hsave : Store.Retains name s (save c s now q).1 := by
    rw [save]
    split
    · exact .refl name s
    · exact Store.retains_save name c.tuning s now (.text _)
  have hpatch : Store.Retains name s (savePatch c s now q).1 := by
    rw [savePatch]
    split
    · exact .refl name s
    · exact Store.retains_save name c.tuning s now (.patch _)
  rw [answer]
  split
  · exact .refl name s
  · next r _ =>
    split
    · cases r with
      | save => exact hsave
      | patch => exact hpatch
      | list | latest | version | history | difference => exact .refl name s
    · exact .refl name s

/-- **Requests take nothing away.** -/
theorem retains_answerAll (name : Text) (c : Config) (s : Store)
    (requests : List (Clock × Request)) : Store.Retains name s (answerAll c s requests).1 := by
  induction requests generalizing s with
  | nil => exact .refl name s
  | cons request rest ih => exact (retains_answer name c s request.1 request.2).trans (ih _)

/-! ## Excerpts -/

/-- The routes that show the text of a version. -/
inductive TextRoute where
  | latest
  | version
  deriving DecidableEq

/-- What is shown of a file. -/
structure Excerpt where
  name : Text
  version : Option Nat
  content : Text

def Excerpt.tag (hash : EntityTag.Hash) (x : Excerpt) : Text :=
  EntityTag.of hash x.name x.version x.content

namespace TextRoute

def route : TextRoute → Route
  | .latest => .latest
  | .version => .version

/-- What a request asks for. -/
def excerpt (c : Config) (s : Store) (q : Request) : TextRoute → Except Refusal Excerpt
  | .latest => do
    let ps ← parameters ["path"] q
    let name ← given ps "path"
    let l ← ofHistory (History.latest c.tuning s name)
    return ⟨l.name, if l.versionCount = 0 then none else some (l.versionCount - 1), l.content⟩
  | .version => do
    let ps ← parameters ["path", "version"] q
    let name ← given ps "path"
    let t ← namedVersion ps "version"
    let v ← ofHistory (History.version c.tuning s name t)
    return ⟨name, v.version, v.content⟩

/-- The value in which an excerpt from a chain of some length is told. -/
def body (x : Excerpt) (length : Nat) : TextRoute → Json
  | .latest => Latest.toJson ⟨x.name, x.content, entriesUpTo x.version⟩
  | .version => VersionText.toJson ⟨x.content, x.version, length⟩

variable {t : TextRoute} {x : Excerpt}

theorem get?_of_given {ps : Query} {key : String} {value : Text} (h : given ps key = .ok value) :
    ps.get? key = some value := by
  rw [given] at h
  split at h
  · next hget =>
    cases h
    exact hget
  · cases h

theorem query_of_parameters {keys : List String} {ps : Query}
    (h : parameters keys q = .ok ps) : ps = q.query := by
  rw [parameters] at h
  split at h
  · cases h
  · cases h
    rfl

theorem ok_of_ofHistory {α : Type} {r : Except Error α} {a : α} (h : ofHistory r = .ok a) :
    r = .ok a := by
  cases r with
  | error e => cases h
  | ok a =>
      cases h
      rfl

/-- An excerpt is from the file that the request names, and from the chain as it is. -/
theorem excerpt_of_ok (h : t.excerpt c s q = .ok x) :
    q.query.get? "path" = some x.name ∧ ∀ n, x.version = some n → n < s.count x.name := by
  cases t with
  | latest =>
      obtain ⟨ps, hps, h⟩ := Outcome.bind_eq_ok_iff.mp h
      obtain ⟨name, hname, h⟩ := Outcome.bind_eq_ok_iff.mp h
      obtain ⟨l, hl, h⟩ := Outcome.bind_eq_ok_iff.mp h
      cases h
      obtain ⟨rfl, hle⟩ := History.latest_of_ok (ok_of_ofHistory hl)
      rw [← query_of_parameters hps]
      refine ⟨get?_of_given hname, fun n hn => ?_⟩
      dsimp only at hn ⊢
      split at hn
      · cases hn
      · cases hn
        omega
  | version =>
      obtain ⟨ps, hps, h⟩ := Outcome.bind_eq_ok_iff.mp h
      obtain ⟨name, hname, h⟩ := Outcome.bind_eq_ok_iff.mp h
      obtain ⟨which, -, h⟩ := Outcome.bind_eq_ok_iff.mp h
      obtain ⟨v, hv, h⟩ := Outcome.bind_eq_ok_iff.mp h
      cases h
      rw [← query_of_parameters hps]
      exact ⟨get?_of_given hname, (History.version_of_ok (ok_of_ofHistory hv)).2⟩

theorem excerpt_latest {ps : Query} {name : Text} {l : Latest}
    (hps : parameters ["path"] q = .ok ps) (hname : given ps "path" = .ok name)
    (hl : History.latest c.tuning s name = .ok l) :
    TextRoute.latest.excerpt c s q = .ok
      ⟨l.name, if l.versionCount = 0 then none else some (l.versionCount - 1), l.content⟩ := by
  simp only [excerpt, hps, hname, hl, bind, Except.bind]
  rfl

theorem excerpt_version {ps : Query} {name : Text} {which : VersionName} {v : VersionText}
    (hps : parameters ["path", "version"] q = .ok ps) (hname : given ps "path" = .ok name)
    (hwhich : namedVersion ps "version" = .ok which)
    (hv : History.version c.tuning s name which = .ok v) :
    TextRoute.version.excerpt c s q = .ok ⟨name, v.version, v.content⟩ := by
  simp only [excerpt, hps, hname, hwhich, hv, bind, Except.bind]
  rfl

/-- The body of an answer is the value of its excerpt. -/
theorem handle_route (t : TextRoute) (c : Config) (s : Store) (now : Clock) (q : Request) :
    handle c s now q t.route = (s, (t.excerpt c s q).map fun x =>
      tagged q (x.tag c.hash) (t.body x (s.count x.name))) := by
  cases t with
  | latest =>
      rw [route, handle, Prod.mk.injEq]
      refine ⟨rfl, ?_⟩
      simp only [Api.latest, excerpt, Outcome.map_bind]
      refine Outcome.bind_congr fun ps _ => Outcome.bind_congr fun name _ =>
        Outcome.bind_congr fun l _ => ?_
      have hcount : entriesUpTo (if l.versionCount = 0 then none else some (l.versionCount - 1))
          = l.versionCount := by
        split
        · next h => exact h.symm
        · next h => exact Nat.succ_pred h
      show Except.ok (tagged q _ l.toJson)
        = Except.ok (tagged q _ (Latest.toJson ⟨l.name, l.content, entriesUpTo _⟩))
      rw [hcount]
      rfl
  | version =>
      rw [route, handle, Prod.mk.injEq]
      refine ⟨rfl, ?_⟩
      simp only [Api.version, excerpt, Outcome.map_bind]
      refine Outcome.bind_congr fun ps _ => Outcome.bind_congr fun name _ =>
        Outcome.bind_congr fun which _ => Outcome.bind_congr fun v hv => ?_
      have htotal := (History.version_of_ok (ok_of_ofHistory hv)).1
      show Except.ok (tagged q _ v.toJson)
        = Except.ok (tagged q _ (VersionText.toJson ⟨v.content, v.version, s.count name⟩))
      rw [← htotal]
      rfl

/-- An excerpt under a tag comes with that tag alone. -/
theorem eq_of_tag_eq (hhash : Function.Injective c.hash) {s' : Store} {x' : Excerpt}
    (hx : t.excerpt c s q = .ok x) (hx' : t.excerpt c s' q = .ok x')
    (hsize : s.count x.name ≤ wordLimit) (hsize' : s'.count x'.name ≤ wordLimit)
    (htag : x'.tag c.hash = x.tag c.hash) : x' = x := by
  obtain ⟨hname, hversion⟩ := excerpt_of_ok hx
  obtain ⟨hname', hversion'⟩ := excerpt_of_ok hx'
  obtain ⟨name, version, content⟩ := x
  obtain ⟨name', version', content'⟩ := x'
  -- both are from the file that the request names, so the name cancels
  obtain rfl : name' = name := Option.some.inj (hname'.symm.trans hname)
  have hword : ∀ n, version = some n → n < wordLimit := fun n hn =>
    Nat.lt_of_lt_of_le (hversion n hn) hsize
  have hword' : ∀ n, version' = some n → n < wordLimit := fun n hn =>
    Nat.lt_of_lt_of_le (hversion' n hn) hsize'
  obtain ⟨rfl, rfl⟩ := (EntityTag.of_eq_of_iff hhash name' hword' hword content' content).mp htag
  rfl

/-- The one route does not tell the length of the chain, and the other does. -/
theorem print_body_eq_iff (t : TextRoute) (x : Excerpt) (m n : Nat) :
    (t.body x m).print = (t.body x n).print ↔ t = .latest ∨ m = n := by
  cases t with
  | latest => simp [body]
  | version =>
      constructor
      · intro h
        simp only [body, VersionText.toJson, Json.record, List.map_cons, List.map_nil, Json.print,
          Json.printMembers, Json.nat, Json.Number.print, List.append_cancel_right_eq,
          List.cons.injEq, List.append_cancel_left_eq, true_and] at h
        have hvalue := congrArg Numeral.value h
        rw [Numeral.value_print, Numeral.value_print] at hvalue
        exact .inr hvalue
      · rintro (h | rfl)
        · cases h
        · rfl

end TextRoute

/-! ## Answers -/

theorem le_errorStatus (e : Error) : 400 ≤ errorStatus e := by
  cases e <;> simp [errorStatus]

theorem le_status_response (e : Refusal) : 400 ≤ e.response.status := by
  cases e with
  | history e => exact le_errorStatus e
  | untypedBody => exact Nat.le_add_right 400 15
  | longBody => exact Nat.le_add_right 400 13
  | unfitBody => exact Nat.le_add_right 400 22
  | repeatedParameter | missingParameter | malformedBody | emptyName => exact Nat.le_refl 400

theorem etag_tagged (q : Request) (tag : Text) (j : Json) : (tagged q tag j).etag = some tag := by
  rw [tagged]
  split <;> rfl

/-- With a body, the answer is the one that a client gets who holds no tag. -/
theorem tagged_of_ok {tag : Text} {j : Json} (h : (tagged q tag j).status = 200) :
    tagged q tag j = { Response.json 200 j with etag := some tag } := by
  rw [tagged] at h ⊢
  split at h
  · cases h
  · next hnot => exact if_neg hnot

theorem listed_of_not_modified {tag : Text} {j : Json} (h : (tagged q tag j).status = 304) :
    (q.header? "if-none-match").any (EntityTag.listed tag) = true := by
  rw [tagged] at h
  split at h
  · assumption
  · cases h

section Get

variable {t : TextRoute} (hpath : Route.ofPath? q.path = some t.route) (hget : q.method = .get)
include hpath hget

theorem answer_route : (answer c s now q).2 = settle ((t.excerpt c s q).map fun x =>
    tagged q (x.tag c.hash) (t.body x (s.count x.name))) := by
  have hallowed : t.route.methods.contains q.method = true := by
    rw [hget]
    cases t <;> rfl
  have hhead : q.method ≠ .head := by
    rw [hget]
    decide
  simp only [answer, hpath, if_pos hallowed, TextRoute.handle_route, if_neg hhead]

/-- A client that holds no tag is answered with the body. -/
theorem answer_plain (now : Clock) {x : Excerpt} (hx : t.excerpt c s q = .ok x)
    (hplain : q.header? "if-none-match" = none) :
    (answer c s now q).2 = { Response.json 200 (t.body x (s.count x.name)) with
      etag := some (x.tag c.hash) } := by
  rw [answer_route hpath hget, hx]
  show tagged q (x.tag c.hash) (t.body x (s.count x.name)) = _
  rw [tagged, hplain]
  rfl

/-- A client that holds the tag is answered with it alone. -/
theorem answer_held (now : Clock) {x : Excerpt} (hx : t.excerpt c s q = .ok x)
    (hheld : (q.header? "if-none-match").any (EntityTag.listed (x.tag c.hash)) = true) :
    (answer c s now q).2 = { status := 304, etag := some (x.tag c.hash) } := by
  rw [answer_route hpath hget, hx]
  exact if_pos hheld

/-- What is answered otherwise than with a refusal is an excerpt. -/
theorem excerpt_of_answer (h : (answer c s now q).2.status < 400) :
    ∃ x, t.excerpt c s q = .ok x ∧
      (answer c s now q).2 = tagged q (x.tag c.hash) (t.body x (s.count x.name)) := by
  rw [answer_route hpath hget] at h ⊢
  cases hx : t.excerpt c s q with
  | error e =>
      rw [hx] at h
      exact absurd (le_status_response e) (Nat.not_le_of_lt h)
  | ok x => exact ⟨x, rfl, rfl⟩

end Get

/-! ## Answers without a body -/

/-- **What a client holds is what it would be shown**, when it is answered with the tag alone. A
client has been shown a text with a tag. Whatever has been requested in between, an answer without a
body carries the tag of what is shown now. It is the tag that the client was given if this is the
one it has sent. Then the same version with the same text is shown now, and the body would be the
same, but for the length of the chain in an answer that tells it. -/
theorem not_modified_keeps_excerpt (c : Config) (hhash : Function.Injective c.hash) (s : Store)
    (between : List (Clock × Request))
    (hsize : ∀ name, (answerAll c s between).1.count name ≤ wordLimit) (t : TextRoute)
    (q : Request) (hpath : Route.ofPath? q.path = some t.route) (hget : q.method = .get)
    (held plain : List (Text × Text))
    (hplain : { q with headers := plain }.header? "if-none-match" = none)
    (now now' now'' : Clock) :
    let s' := (answerAll c s between).1
    let shown := (answer c s now q).2
    let unmodified := (answer c s' now' { q with headers := held }).2
    let current := (answer c s' now'' { q with headers := plain }).2
    shown.status = 200 → unmodified.status = 304 →
      (current.status = 200 ∧ current.etag = unmodified.etag) ∧
      ({ q with headers := held }.header? "if-none-match" = shown.etag →
        unmodified.etag = shown.etag) ∧
      (unmodified.etag = shown.etag → ∃ x : Excerpt, q.query.get? "path" = some x.name ∧
        shown = { Response.json 200 (t.body x (s.count x.name)) with
          etag := some (x.tag c.hash) } ∧
        current = { Response.json 200 (t.body x (s'.count x.name)) with
          etag := some (x.tag c.hash) } ∧
        (current = shown ↔ t = .latest ∨ s'.count x.name = s.count x.name)) := by
  intro s' shown unmodified current hshown hunmodified
  obtain ⟨x, hx, hshownx⟩ : ∃ x, t.excerpt c s q = .ok x ∧ shown = _ :=
    excerpt_of_answer hpath hget (Nat.lt_of_le_of_lt (Nat.le_of_eq hshown) (by decide))
  obtain ⟨x', hx', hunmodifiedx⟩ : ∃ x', t.excerpt c s' q = .ok x' ∧ unmodified = _ :=
    excerpt_of_answer (q := { q with headers := held }) hpath hget
      (Nat.lt_of_le_of_lt (Nat.le_of_eq hunmodified) (by decide))
  have hcurrent : current = { Response.json 200 (t.body x' (s'.count x'.name)) with
      etag := some (x'.tag c.hash) } :=
    answer_plain (q := { q with headers := plain }) hpath hget now'' hx' hplain
  have htag : unmodified.etag = some (x'.tag c.hash) := by rw [hunmodifiedx, etag_tagged]
  have htag' : shown.etag = some (x.tag c.hash) := by rw [hshownx, etag_tagged]
  refine ⟨⟨by rw [hcurrent]; rfl, by rw [hcurrent, htag]⟩, fun hheld => ?_, fun hsame => ?_⟩
  · rw [hunmodifiedx] at hunmodified
    have hlisted := listed_of_not_modified hunmodified
    rw [hheld, htag', Option.any_some] at hlisted
    have hsame : x.tag c.hash = x'.tag c.hash := (EntityTag.listed_of_iff _ _ _ _ _).mp hlisted
    rw [htag, htag', hsame]
  rw [htag, htag', Option.some.injEq] at hsame
  -- the chain has not become shorter, so all numbers of versions are words
  have hle : s.count x.name ≤ s'.count x.name := by
    rw [Store.count_eq, Store.count_eq]
    exact (retains_answerAll x.name c s between).rows.length_le
  obtain rfl : x' = x := TextRoute.eq_of_tag_eq hhash hx hx'
    (Nat.le_trans hle (hsize x.name)) (hsize x'.name) hsame
  have hshown' : shown = { Response.json 200 (t.body x' (s.count x'.name)) with
      etag := some (x'.tag c.hash) } := by
    rw [hshownx] at hshown ⊢
    exact tagged_of_ok hshown
  refine ⟨x', (TextRoute.excerpt_of_ok hx).1, hshown', hcurrent, ?_⟩
  rw [hcurrent, hshown', ← TextRoute.print_body_eq_iff]
  constructor
  · exact fun h => congrArg Response.body h
  · intro h
    simp only [Response.json, h]

/-! ## A client that asks again -/

/-- A request to save a text. -/
def saving (name t : Text) : Request :=
  { method := .post, target := "/api/files/save".toList,
    headers := [("content-type".toList, "application/json".toList)],
    body := (Submission.toJson { name := name, content := t }).print }

/-- A text that is saved by request is one that is saved. -/
theorem refines_saving {m : Snapshots} (h : Snapshots.Refines c.tuning s m)
    (hm : c.tuning.patchMargin < sizeLimit) (hnow : now.Storable) (name t : Text)
    (hbody : (writeRequest Submission.decode Submission.name (saving name t)).toOption
      = some { name := name, content := t })
    (hshort : (m.save { name := name, content := t }).1.Short) :
    Snapshots.Refines c.tuning (answer c s now (saving name t)).1
      (m.save { name := name, content := t }).1 := by
  have hpath : Route.ofPath? (saving name t).path = some .save := by
    show Route.ofPath? ("/api/files/save".toList.takeWhile fun c => c != '?' && c != '#') = _
    decide
  have hstore : (answer c s now (saving name t)).1
      = (History.save c.tuning s now { name := name, content := t }).1 := by
    cases hrequest : writeRequest Submission.decode Submission.name (saving name t) with
    | error e =>
        rw [hrequest] at hbody
        cases hbody
    | ok a =>
        rw [hrequest] at hbody
        cases hbody
        simp only [answer, hpath, handle, save, hrequest]
        rfl
  rw [hstore]
  exact (h.save hm hnow { name := name, content := t } hshort).1

/-- A client holds the latest text of a file, and another file is begun. -/
theorem not_modified_keeps_excerpt_latest :
    let c : Config := { hash := id }
    let s := (answerAll c {} [(.newYear, saving ['a'] ['x'])]).1
    let between := [(.newYear, saving ['b'] ['y'])]
    let s' := (answerAll c s between).1
    let q : Request := { method := .get, target := "/api/files/latest?path=a".toList }
    let held := [("if-none-match".toList, EntityTag.of id ['a'] none ['x'])]
    Function.Injective c.hash ∧ (∀ name, s'.count name ≤ wordLimit) ∧
      Route.ofPath? q.path = some .latest ∧
      { q with headers := [] }.header? "if-none-match" = none ∧
      (answer c s .newYear q).2.status = 200 ∧
      (answer c s' .newYear { q with headers := held }).2.status = 304 ∧
      (answer c s' .newYear q).2 = (answer c s .newYear q).2 := by
  intro c s between s' q held
  have hnow := Clock.storable_newYear
  have hs : Snapshots.Refines c.tuning s (Snapshots.empty.set ['a'] ⟨['x'], []⟩) :=
    refines_saving (Snapshots.refines_empty _) (by decide) hnow ['a'] ['x'] (by decide +kernel)
      (Snapshots.short_empty.set ['a'] (by decide))
  have hs' : Snapshots.Refines c.tuning s'
      ((Snapshots.empty.set ['a'] ⟨['x'], []⟩).set ['b'] ⟨['y'], []⟩) :=
    refines_saving hs (by decide) hnow ['b'] ['y'] (by decide +kernel)
      ((Snapshots.short_empty.set ['a'] (by decide)).set ['b'] (by decide))
  have hsize : ∀ name, s'.count name ≤ wordLimit := by
    intro name
    rw [hs'.count, Snapshots.set, Snapshots.set]
    split
    · exact Nat.zero_le _
    · split <;> exact Nat.zero_le _
  have hpath : Route.ofPath? q.path = some TextRoute.latest.route := by decide
  have hx : TextRoute.latest.excerpt c s q = .ok ⟨['a'], none, ['x']⟩ :=
    TextRoute.excerpt_latest rfl rfl (hs.latest ['a'])
  have hx' : TextRoute.latest.excerpt c s' q = .ok ⟨['a'], none, ['x']⟩ :=
    TextRoute.excerpt_latest rfl rfl (hs'.latest ['a'])
  have hshown := answer_plain hpath rfl .newYear hx rfl
  have hunmodified := answer_held (q := { q with headers := held }) hpath rfl .newYear hx'
    (by decide +kernel)
  have hinjective : Function.Injective c.hash := fun _ _ h => h
  have hstatus : (answer c s .newYear q).2.status = 200 := by rw [hshown]; rfl
  have hstatus' : (answer c s' .newYear { q with headers := held }).2.status = 304 := by
    rw [hunmodified]
  obtain ⟨-, -, hkeeps⟩ := not_modified_keeps_excerpt c hinjective s between hsize .latest q hpath
    rfl held [] rfl .newYear .newYear .newYear hstatus hstatus'
  obtain ⟨x, -, -, -, hsame⟩ := hkeeps (by rw [hunmodified, hshown])
  exact ⟨hinjective, hsize, hpath, rfl, hstatus, hstatus', hsame.mpr (.inl rfl)⟩

/-- **A chain can grow under a tag.** A client holds a version of a file and the tag of it. After
another text has been saved it is answered with the tag alone, and yet the body that it would be
shown is another one: it tells of one version more. -/
theorem not_modified_misses_growth :
    let c : Config := { hash := id }
    let s := (answerAll c {} [(.newYear, saving ['a'] ['x']), (.newYear, saving ['a'] ['y'])]).1
    let s' := (answerAll c s [(.newYear, saving ['a'] ['z'])]).1
    let q : Request := { method := .get, target := "/api/files/version?path=a&version=0".toList }
    let tag := EntityTag.of id ['a'] (some 0) ['y']
    Function.Injective c.hash ∧
      (answer c s .newYear q).2 = { Response.json 200 (VersionText.toJson ⟨['y'], some 0, 1⟩) with
        etag := some tag } ∧
      (answer c s' .newYear { q with headers := [("if-none-match".toList, tag)] }).2
        = { status := 304, etag := some tag } ∧
      (answer c s' .newYear q).2 = { Response.json 200 (VersionText.toJson ⟨['y'], some 0, 2⟩) with
        etag := some tag } ∧
      (answer c s' .newYear q).2 ≠ (answer c s .newYear q).2 := by
  intro c s s' q tag
  have hnow := Clock.storable_newYear
  have hx : Snapshots.Refines c.tuning (answer c {} .newYear (saving ['a'] ['x'])).1
      (Snapshots.empty.set ['a'] ⟨['x'], []⟩) :=
    refines_saving (Snapshots.refines_empty _) (by decide) hnow ['a'] ['x'] (by decide +kernel)
      (Snapshots.short_empty.set ['a'] (by decide))
  have hs : Snapshots.Refines c.tuning s
      ((Snapshots.empty.set ['a'] ⟨['x'], []⟩).set ['a'] ⟨['x'], [['y']]⟩) :=
    refines_saving hx (by decide) hnow ['a'] ['y'] (by decide +kernel)
      ((Snapshots.short_empty.set ['a'] (by decide)).set ['a'] (by decide))
  have hs' : Snapshots.Refines c.tuning s'
      (((Snapshots.empty.set ['a'] ⟨['x'], []⟩).set ['a'] ⟨['x'], [['y']]⟩).set ['a']
        ⟨['x'], [['y'], ['z']]⟩) :=
    refines_saving hs (by decide) hnow ['a'] ['z'] (by decide +kernel)
      (((Snapshots.short_empty.set ['a'] (by decide)).set ['a'] (by decide)).set ['a'] (by decide))
  have hpath : Route.ofPath? q.path = some TextRoute.version.route := by decide
  have hx : TextRoute.version.excerpt c s q = .ok ⟨['a'], some 0, ['y']⟩ :=
    TextRoute.excerpt_version rfl rfl rfl (hs.version ['a'] (.index 0))
  have hx' : TextRoute.version.excerpt c s' q = .ok ⟨['a'], some 0, ['y']⟩ :=
    TextRoute.excerpt_version rfl rfl rfl (hs'.version ['a'] (.index 0))
  have hcount : s.count ['a'] = 1 := hs.count ['a']
  have hcount' : s'.count ['a'] = 2 := hs'.count ['a']
  have hshown : (answer c s .newYear q).2 = { Response.json 200
      (TextRoute.version.body ⟨['a'], some 0, ['y']⟩ 1) with etag := some tag } := by
    rw [answer_plain hpath rfl .newYear hx rfl, hcount]
    rfl
  have hcurrent : (answer c s' .newYear q).2 = { Response.json 200
      (TextRoute.version.body ⟨['a'], some 0, ['y']⟩ 2) with etag := some tag } := by
    rw [answer_plain hpath rfl .newYear hx' rfl, hcount']
    rfl
  refine ⟨fun _ _ h => h, hshown, ?_, hcurrent, ?_⟩
  · rw [answer_held (q := { q with headers := [("if-none-match".toList, tag)] }) hpath rfl
      .newYear hx' (by decide +kernel)]
    rfl
  · rw [hshown, hcurrent]
    intro h
    rcases (TextRoute.print_body_eq_iff _ _ 2 1).mp (congrArg Response.body h) with h | h
    · cases h
    · cases h

end Api

end TextHistory
