import Szarp.Probes.GetContract
import Szarp.Probes.Server

/-!
# One answer for each line

When every line is one that the server can answer, a connection carries exactly one answer for each
line, in the order of the lines, however the transport pauses.
-/

namespace Szarp
namespace Probes

open Gregorian Szbase PyText Numeral

/-! ## The protocol -/

inductive Request where
  | get (start stop : ℤ) (path : List Char)
  | search (start stop direction : ℤ) (path : List Char)
  | range
  | malformed
deriving DecidableEq

/-- A path of three names below the cache. -/
def ProperPath (path : List Char) : Prop :=
  (path.splitOn '/').length = 3 ∧ ∀ p ∈ path.splitOn '/', p ≠ [] ∧ p ≠ ['.'] ∧ p ≠ ['.', '.']

instance : DecidablePred ProperPath := fun path =>
  inferInstanceAs (Decidable ((path.splitOn '/').length = 3 ∧
    ∀ p ∈ path.splitOn '/', p ≠ [] ∧ p ≠ ['.'] ∧ p ≠ ['.', '.']))

def request (line : List Char) : Request :=
  let line := strip line
  if "GET ".toList.isPrefixOf line then
    match splitSpace 3 line with
    | [_, start, stop, path] =>
      match int start, int stop with
      | some start, some stop =>
        if start ≤ stop ∧ ProperPath path then .get start stop path else .malformed
      | _, _ => .malformed
    | _ => .malformed
  else if "SEARCH ".toList.isPrefixOf line then
    match splitSpace 4 line with
    | [_, start, stop, direction, path] =>
      match int start, int stop, int direction with
      | some start, some stop, some direction =>
        if (0 ≤ start ∨ start = -1) ∧ (0 < stop ∨ stop = -1) ∧
            (direction = 0 ∨ direction = 1 ∨ direction = -1) ∧ ProperPath path then
          .search start stop direction path
        else .malformed
      | _, _, _ => .malformed
    | _ => .malformed
  else if line = "RANGE".toList then .range
  else .malformed

/-- One answer to a line: data behind the line that announces their size, a line of results, or a
line with an error. -/
def Answers (line : List Char) (answer : List UInt8) : Prop :=
  match request line with
  | .get _ _ _ => ∃ (last : ℤ) (n : ℕ) (body : List UInt8),
      answer = getHeader last (2 * n) ++ body ∧ body.length = 2 * n
  | .search _ _ _ _ => ∃ found first last, answer = numberLine [found, first, last]
  | .range => ∃ first last, answer = numberLine [first, last]
  | .malformed => ∃ msg, '\n' ∉ msg ∧ answer = errorLine badRequest msg

/-! ## The lines that are answered -/

def InClock (t : ℤ) : Prop := -2 ^ 31 ≤ (szbTime2my t).1 - 1900 ∧ (szbTime2my t).1 - 1900 < 2 ^ 31

/-- A malformed line that the server notices as one.  It fails to report a GET or a RANGE; in a
SEARCH it overlooks a wrong direction, and it looks at the path late. -/
def Noticed (line : List Char) : Prop :=
  let line := strip line
  ¬ "GET ".toList.isPrefixOf line ∧ ¬ "RANGE".toList.isPrefixOf line ∧
    ("SEARCH ".toList.isPrefixOf line → ∀ req start stop direction path,
      splitSpace 4 line = [req, start, stop, direction, path] →
      ∀ s e d, int start = some s → int stop = some e → int direction = some d →
        (0 ≤ s ∨ s = -1) → (0 < e ∨ e = -1) → InClock s ∧ InClock e ∧ ¬ ProperPath path)

/-- The lines that the server answers.  A GET must be for a directory that is missing or has no
files, or for a range that the loop serves and whose ends lie equally far into their slots; a
SEARCH must be a safe one; a RANGE must not reach back two years. -/
def Answerable (env : Env) (line : List Char) : Prop :=
  match request line with
  | .get start stop path =>
    Char.ofNat 0 ∉ join env.cache.cachedir path ∧
      ∀ files, env.cache.listdir (join env.cache.cachedir path) = some files → files ≠ [] →
        Serves (join env.cache.cachedir path) stop start ∧ start % 10 ≤ stop % 10
  | .search start stop direction path =>
    InClock start ∧ InClock stop ∧ Char.ofNat 0 ∉ join env.cache.cachedir path ∧
      ∀ files, env.cache.listdir (join env.cache.cachedir path) = some files →
        SearchSafe (join env.cache.cachedir path) files start direction
  | .range => ∀ n, 2 ≤ (szbTime2my (env.clock n)).1 ∧ (szbTime2my (env.clock n)).1 ≤ 9999 ∧
      env.cache.months < (szbTime2my (env.clock n)).2 + 12
  | .malformed => Noticed line

/-! ## Producers that answer -/

/-- A producer that has written `done` of the answer to a line, and will write the rest. -/
def Active (env : Env) (line : List Char) (done : List UInt8) : Producer → Prop
  | .get g => ∃ files, g.Sound env.cache ∧
      (g.size ≠ some 0 → IsParamDir env.cache g.param files) ∧
      (g.size ≠ some 0 → (g.stop - g.start).toNat ≤ env.rounds) ∧
      Answers line (done ++ g.remaining files)
  | p => done = [] ∧ ∀ o, ∃ r, p.resumeProducing env o = .ok (p, o.write r, true) ∧ Answers line r

/-- What a producer still has to do; one that is done at the next call counts one. -/
def Producer.work : Producer → ℕ
  | .get g => g.work + 1
  | _ => 1

variable (env : Env)

/-- A call writes the rest of the answer, or a part of it. -/
theorem resumeProducing_active {line : List Char} {done : List UInt8} {p : Producer}
    (h : Active env line done p) (o : Output) :
    ∃ p' o' r, o'.bytes = o.bytes ++ r ∧
      (p.resumeProducing env o = .ok (p', o', true) ∧ Answers line (done ++ r) ∨
        p.resumeProducing env o = .ok (p', o', false) ∧ Active env line (done ++ r) p' ∧
          p'.work < p.work) := by
  cases p with
  | get g =>
    obtain ⟨files, hsound, hdir, hrounds, hanswer⟩ := h
    obtain ⟨g', o', r, hout, ⟨hok, rfl⟩ |
      ⟨hok, hsum, hsound', hne, hsize, hparam, hstop, hstart, hwork⟩⟩ :=
      GetProducer.resumeProducing_spec env.cache env.pauses hdir hsound hrounds o
    · exact ⟨.get g', o', _, hout, Or.inl ⟨by rw [Producer.resumeProducing, hok]; rfl, hanswer⟩⟩
    · refine ⟨.get g', o', r, hout, Or.inr ⟨by rw [Producer.resumeProducing, hok]; rfl,
        ⟨files, hsound', ?_, ?_, ?_⟩, Nat.succ_lt_succ hwork⟩⟩
      · rw [hparam]
        exact fun _ => hdir hne
      · have := hrounds hne
        omega
      · rw [List.append_assoc, hsum]
        exact hanswer
  | error code msg =>
    obtain ⟨rfl, h⟩ := h
    obtain ⟨r, hok, hanswer⟩ := h o
    exact ⟨_, _, r, rfl, Or.inl ⟨hok, hanswer⟩⟩
  | search start stop direction param =>
    obtain ⟨rfl, h⟩ := h
    obtain ⟨r, hok, hanswer⟩ := h o
    exact ⟨_, _, r, rfl, Or.inl ⟨hok, hanswer⟩⟩
  | range =>
    obtain ⟨rfl, h⟩ := h
    obtain ⟨r, hok, hanswer⟩ := h o
    exact ⟨_, _, r, rfl, Or.inl ⟨hok, hanswer⟩⟩

/-! ## Parsing a request -/

theorem checkPath_of_proper (c : SzbCache) {path : List Char} (h : ProperPath path) :
    c.checkPath path = .ok (join c.cachedir path) := by
  have hany : ¬ ((path.splitOn '/').any fun p => p = [] ∨ p = ['.'] ∨ p = ['.', '.']) = true := by
    rw [List.any_eq_true]
    rintro ⟨p, hp, hbad⟩
    obtain ⟨h1, h2, h3⟩ := h.2 p hp
    rcases of_decide_eq_true hbad with hbad | hbad | hbad
    · exact h1 hbad
    · exact h2 hbad
    · exact h3 hbad
  simp only [SzbCache.checkPath, h.1, ne_eq, not_true_eq_false, if_false, if_neg hany]

theorem checkPath_of_improper (c : SzbCache) {path : List Char} (h : ¬ ProperPath path) :
    ∃ message, c.checkPath path = .error (.szbException message) ∧ '\n' ∉ message.toList := by
  unfold SzbCache.checkPath
  dsimp only
  by_cases hlen : (path.splitOn '/').length = 3
  · rw [if_neg (not_not.mpr hlen), if_pos]
    · exact ⟨_, rfl, by decide⟩
    · by_contra hany
      apply h
      refine ⟨hlen, fun p hp => ?_⟩
      rw [List.any_eq_true, not_exists] at hany
      have hp' := hany p
      rw [not_and, decide_eq_true_eq, not_or, not_or] at hp'
      exact hp' hp
  · rw [if_pos hlen]
    exact ⟨_, rfl, by decide⟩

theorem parse_of_get {line path : List Char} {start stop : ℤ}
    (h : request line = .get start stop path) (c : SzbCache) :
    start ≤ stop ∧ ProperPath path ∧
      parse c line = (GetProducer.create c start stop path).map Producer.get := by
  unfold request at h
  dsimp only at h
  split at h
  · rename_i hget
    split at h
    · rename_i req start' stop' path' htokens
      split at h
      · rename_i s e hs he
        split at h
        · rename_i hok
          cases h
          unfold parse parseGET
          dsimp only
          rw [if_pos hget, htokens]
          dsimp only
          rw [hs, he]
          dsimp only
          rw [if_neg (not_lt.mpr hok.1)]
          exact ⟨hok.1, hok.2, rfl⟩
        · exact nomatch h
      · exact nomatch h
    · exact nomatch h
  · split at h
    · split at h
      · split at h
        · split at h <;> exact nomatch h
        · exact nomatch h
      · exact nomatch h
    · split at h <;> exact nomatch h

theorem parse_of_search {line path : List Char} {start stop direction : ℤ}
    (h : request line = .search start stop direction path) (c : SzbCache) (hstart : InClock start)
    (hstop : InClock stop) :
    ProperPath path ∧ parse c line = .ok (.search start stop direction path) := by
  have hformat : ∀ t, InClock t → formatTime t = .ok () := by
    intro t ht
    rw [formatTime, gmtime_eq ht]
    rfl
  unfold request at h
  dsimp only at h
  split at h
  · split at h
    · split at h
      · split at h <;> exact absurd h (by simp)
      · exact absurd h (by simp)
    · exact absurd h (by simp)
  · rename_i hget
    split at h
    · rename_i hsearch
      split at h
      · rename_i req start' stop' direction' path' htokens
        split at h
        · rename_i s e d hs he hd
          split at h
          · rename_i hok
            cases h
            obtain ⟨hlow, hpos, -, hpath⟩ := hok
            unfold parse parseSEARCH
            dsimp only
            rw [if_neg hget, if_pos hsearch, htokens]
            dsimp only
            rw [hs, he, hd]
            dsimp only
            rw [if_neg (by omega), if_neg (by omega), hformat _ hstart, hformat _ hstop]
            exact ⟨hpath, rfl⟩
          · exact absurd h (by simp)
        · exact absurd h (by simp)
      · exact absurd h (by simp)
    · split at h <;> exact absurd h (by simp)

theorem parse_of_range {line : List Char} (h : request line = .range) (c : SzbCache) :
    parse c line = .ok .range := by
  unfold request at h
  dsimp only at h
  split at h
  · split at h
    · split at h
      · split at h <;> exact nomatch h
      · exact nomatch h
    · exact nomatch h
  · rename_i hget
    split at h
    · split at h
      · split at h
        · split at h <;> exact nomatch h
        · exact nomatch h
      · exact nomatch h
    · rename_i hsearch
      split at h
      · rename_i hrange
        unfold parse parseRANGE
        rw [if_neg hget, if_neg hsearch, hrange]
        rfl
      · exact nomatch h

/-- A malformed line that is noticed makes an error, or a search whose path is refused. -/
theorem parse_of_noticed {line : List Char} (hnoticed : Noticed line) (c : SzbCache) :
    (∃ msg, '\n' ∉ msg ∧ parse c line = .ok (.error badRequest msg)) ∨
      ∃ start stop direction path, InClock start ∧ InClock stop ∧ ¬ ProperPath path ∧
        parse c line = .ok (.search start stop direction path) := by
  obtain ⟨hget, hrange, hsearch⟩ := hnoticed
  unfold parse
  dsimp only
  rw [if_neg hget]
  by_cases hkind : "SEARCH ".toList.isPrefixOf (strip line)
  · rw [if_pos hkind]
    unfold parseSEARCH
    split
    · rename_i req start stop direction path htokens
      split
      · exact Or.inl ⟨_, by decide, rfl⟩
      · rename_i s hs
        split
        · exact Or.inl ⟨_, by decide, rfl⟩
        · rename_i hlow
          split
          · exact Or.inl ⟨_, by decide, rfl⟩
          · rename_i e he
            split
            · exact Or.inl ⟨_, by decide, rfl⟩
            · rename_i hpos
              split
              · exact Or.inl ⟨_, by decide, rfl⟩
              · rename_i d hd
                obtain ⟨hstart, hstop, hpath⟩ := hsearch hkind req start stop direction path
                  htokens s e d hs he hd (by omega) (by omega)
                refine Or.inr ⟨s, e, d, path, hstart, hstop, hpath, ?_⟩
                simp only [formatTime, gmtime_eq hstart, gmtime_eq hstop]
                rfl
    · exact Or.inl ⟨_, by decide, rfl⟩
  · rw [if_neg hkind, if_neg hrange]
    exact Or.inl ⟨_, by decide, rfl⟩

/-! ## Answerable lines -/

theorem isdir_of_listdir (c : SzbCache) {dpath : List Char} (h : Char.ofNat 0 ∉ dpath) :
    c.isdir dpath = .ok (c.listdir dpath).isSome := by
  rw [SzbCache.isdir, if_neg h]

theorem create_active {line path : List Char} {start stop : ℤ}
    (hrequest : request line = .get start stop path) (hle : start ≤ stop) (hpath : ProperPath path)
    (hnul : Char.ofNat 0 ∉ join env.cache.cachedir path)
    (hfiles : ∀ files, env.cache.listdir (join env.cache.cachedir path) = some files → files ≠ [] →
      Serves (join env.cache.cachedir path) stop start ∧ start % 10 ≤ stop % 10)
    (hrounds : 2 ^ 42 ≤ env.rounds) :
    ∃ g, GetProducer.create env.cache start stop path = .ok g ∧ Active env line [] (.get g) := by
  have hcheck := checkPath_of_proper env.cache hpath
  have hisdir := isdir_of_listdir env.cache hnul
  have hanswers : ∀ answer, Answers line answer ↔ ∃ (last : ℤ) (n : ℕ) (body : List UInt8),
      answer = getHeader last (2 * n) ++ body ∧ body.length = 2 * n := by
    intro answer
    rw [Answers, hrequest]
  -- nothing is sent for a missing directory and for one without files
  have hempty : Active env line [] (.get ⟨start, stop, path, false, some 0, -1⟩) :=
    ⟨[], Or.inl rfl, fun hne => absurd rfl hne, fun hne => absurd rfl hne,
      (hanswers _).mpr ⟨-1, 0, [], rfl, rfl⟩⟩
  cases hlist : env.cache.listdir (join env.cache.cachedir path) with
  | none =>
    rw [hlist] at hisdir
    refine ⟨_, ?_, hempty⟩
    simp only [GetProducer.create, SzbCache.getSizeAndLast, hcheck, hisdir, bind, Except.bind]
    rfl
  | some files =>
    rw [hlist] at hisdir
    by_cases hne : files = []
    · subst hne
      obtain ⟨first, last, hsearch, -, hfirst, -⟩ := searchFirstLast_ok env.cache hlist
      refine ⟨_, ?_, hempty⟩
      simp only [GetProducer.create, SzbCache.getSizeAndLast, hcheck, hisdir, hsearch, hfirst rfl,
        bind, Except.bind]
      rfl
    · obtain ⟨hserves, hmod⟩ := hfiles files hlist hne
      have hdir : IsParamDir env.cache path files := ⟨hcheck, hisdir, hlist⟩
      obtain ⟨last, -, -, hcreate⟩ := create_eq env.cache hdir hne start stop
      have hshort := sub_lt_of_year hserves.year_pos hserves.lt.le hserves.year_le
      have hsize : 2 * ((stop - start) / 10 + 1) ≠ 0 := by omega
      obtain ⟨n, hn⟩ := Int.eq_ofNat_of_zero_le (show 0 ≤ (stop - start) / 10 + 1 by omega)
      refine ⟨_, hcreate, files, Or.inr ⟨fun heq => hsize (Option.some.inj heq), hserves⟩,
        fun _ => hdir, fun _ => by dsimp only; omega, ?_⟩
      rw [hanswers, List.nil_append, GetProducer.remaining]
      simp only [if_neg hsize]
      refine ⟨last, n, _, by rw [hn], ?_⟩
      rw [GetProducer.unwritten, length_slots]
      dsimp only
      omega

/-- `available_range` has a result in the year behind the cache. -/
theorem availableRange_ok (c : SzbCache) {now : ℤ}
    (h : 2 ≤ (szbTime2my now).1 ∧ (szbTime2my now).1 ≤ 9999 ∧
      c.months < (szbTime2my now).2 + 12) : ∃ r, c.availableRange now = .ok r := by
  have hm := szbTime2my_month now
  have hpos := c.months_pos
  have hlo := monthStart_le now
  have hmod := monthStart_mod (szbTime2my now).1 (szbTime2my now).2
  have hhi := lt_monthStart_nextMonth now
  have hmonth := szbTime2my_of_mem (t := now - now % 10) hm.1 hm.2 (y := (szbTime2my now).1)
    (by omega) (by omega)
  have hmon : ((szbTime2my (now - now % 10)).2 : ℤ) =
      (Gregorian.gmtime (now - now % 10)).tmMon + 1 := by
    have hfields := gmtime_fields (now - now % 10)
    rw [szbTime2my]
    omega
  have hyear : (szbTime2my (now - now % 10)).1 =
      (Gregorian.gmtime (now - now % 10)).tmYear + 1900 := rfl
  rw [hmonth] at hmon hyear
  dsimp only at hmon hyear
  have hgm := gmtime_eq (t := now - now % 10) (by rw [hmonth]; dsimp only; omega)
  simp only [SzbCache.availableRange, hgm, bind, Except.bind, ← hmon, ← hyear]
  split
  · rw [timegm, if_pos (by omega)]
    exact ⟨_, rfl⟩
  · rw [timegm, if_pos (by omega)]
    exact ⟨_, rfl⟩

/-- A search whose path is refused is answered by the error. -/
theorem search_refused {start stop direction : ℤ} {path : List Char} (hstart : InClock start)
    (hstop : InClock stop) (hpath : ¬ ProperPath path) (rounds : ℕ) (c : SzbCache) :
    ∃ message, c.search rounds start stop direction path = .error (.szbException message) ∧
      '\n' ∉ message.toList := by
  obtain ⟨message, hcheck, hmessage⟩ := checkPath_of_improper c hpath
  refine ⟨message, ?_, hmessage⟩
  simp only [SzbCache.search, formatTime, gmtime_eq hstart, gmtime_eq hstop, hcheck]
  rfl

/-- Every answerable line makes a producer of its answer. -/
theorem parse_active {line : List Char} (h : Answerable env line) (hrounds : 2 ^ 42 ≤ env.rounds) :
    ∃ p, parse env.cache line = .ok p ∧ Active env line [] p := by
  unfold Answerable at h
  cases hrequest : request line with
  | get start stop path =>
    simp only [hrequest] at h
    obtain ⟨hle, hpath, hparse⟩ := parse_of_get hrequest env.cache
    obtain ⟨g, hcreate, hactive⟩ := create_active env hrequest hle hpath h.1 h.2 hrounds
    exact ⟨.get g, by rw [hparse, hcreate]; rfl, hactive⟩
  | search start stop direction path =>
    simp only [hrequest] at h
    obtain ⟨hstart, hstop, hnul, hfiles⟩ := h
    obtain ⟨hpath, hparse⟩ := parse_of_search hrequest env.cache hstart hstop
    have hisdir := isdir_of_listdir env.cache hnul
    have hcheck := checkPath_of_proper env.cache hpath
    have hresult : ∃ r, env.cache.search env.rounds start stop direction path = .ok r := by
      -- without the directory of a parameter the search finds nothing, and raises nothing
      cases hlist : env.cache.listdir (join env.cache.cachedir path) with
      | none =>
        rw [hlist] at hisdir
        refine ⟨(-1, -1, -1), ?_⟩
        simp only [SzbCache.search, formatTime, gmtime_eq hstart, gmtime_eq hstop, hcheck, hisdir,
          Except.map, bind, Except.bind]
        rfl
      | some files =>
        rw [hlist] at hisdir
        exact search_ok env.cache ⟨hcheck, hisdir, hlist⟩ hrounds (gmtime_eq hstart)
          (gmtime_eq hstop) (hfiles files hlist)
    obtain ⟨r, hr⟩ := hresult
    refine ⟨_, hparse, rfl, fun o => ⟨numberLine [r.1, r.2.1, r.2.2], ?_, ?_⟩⟩
    · rw [Producer.resumeProducing, hr]
      rfl
    · rw [Answers, hrequest]
      exact ⟨_, _, _, rfl⟩
  | range =>
    simp only [hrequest] at h
    refine ⟨_, parse_of_range hrequest env.cache, rfl, fun o => ?_⟩
    obtain ⟨r, hr⟩ := availableRange_ok env.cache (h o.writes)
    refine ⟨numberLine [r.1, r.2], ?_, ?_⟩
    · rw [Producer.resumeProducing, hr]
      rfl
    · rw [Answers, hrequest]
      exact ⟨_, _, rfl⟩
  -- most malformed lines make an error; a path that the cache refuses makes a search that fails
  | malformed =>
    simp only [hrequest] at h
    rcases parse_of_noticed h env.cache with
      ⟨msg, hmsg, hparse⟩ | ⟨start, stop, direction, path, hstart, hstop, hpath, hparse⟩
    · refine ⟨_, hparse, rfl, fun o => ⟨errorLine badRequest msg, rfl, ?_⟩⟩
      rw [Answers, hrequest]
      exact ⟨msg, hmsg, rfl⟩
    · obtain ⟨message, hsearch, hmessage⟩ :=
        search_refused hstart hstop hpath env.rounds env.cache
      refine ⟨_, hparse, rfl, fun o => ⟨errorLine badRequest message.toList, ?_, ?_⟩⟩
      · rw [Producer.resumeProducing, hsearch]
        rfl
      · rw [Answers, hrequest]
        exact ⟨_, hmessage, rfl⟩

/-! ## The connection -/

/-- Where a connection stands: some lines are answered, one is being answered, and the producers of
the others wait. -/
def Serving (s : Session) : Prop :=
  ∃ answered answers, List.Forall₂ Answers answered answers ∧ s.proto.requests.length ≤ env.depth ∧
    match s.proto.producer with
    | none => s.received = answered ∧ s.proto.requests = [] ∧ s.proto.output.bytes = answers.flatten
    | some p => ∃ line waiting done, s.received = answered ++ line :: waiting ∧
        s.proto.output.bytes = answers.flatten ++ done ∧ Active env line done p ∧
        List.Forall₂ (fun line p => Active env line [] p) waiting s.proto.requests

def load (s : ProbesProtocol) : ℕ :=
  (s.producer.elim 0 Producer.work) + (s.requests.map Producer.work).sum

theorem nextProducer_serving {answered waiting : List (List Char)} {answers : List (List UInt8)}
    {requests : List Producer} {o : Output} (hanswers : List.Forall₂ Answers answered answers)
    (hout : o.bytes = answers.flatten)
    (hwaiting : List.Forall₂ (fun line p => Active env line [] p) waiting requests) {depth : ℕ}
    (hdepth : requests.length ≤ depth) (hle : depth ≤ env.depth) :
    ∃ proto, ProbesProtocol.nextProducer env depth requests o = .ok proto ∧
      Serving env ⟨proto, answered ++ waiting⟩ ∧ load proto ≤ (requests.map Producer.work).sum := by
  induction depth generalizing answered waiting answers requests o with
  | zero =>
    obtain rfl := List.eq_nil_of_length_eq_zero (Nat.le_zero.mp hdepth)
    rw [List.forall₂_nil_right_iff] at hwaiting
    rw [hwaiting, List.append_nil]
    exact ⟨_, rfl, ⟨answered, answers, hanswers, Nat.zero_le _, rfl, rfl, hout⟩, le_rfl⟩
  | succ depth ih =>
    cases hwaiting with
    | nil =>
      rw [List.append_nil]
      exact ⟨_, rfl, ⟨answered, answers, hanswers, Nat.zero_le _, rfl, rfl, hout⟩, le_rfl⟩
    | @cons line p waiting requests hactive hwaiting =>
      obtain ⟨p', o', r, hout', ⟨hok, hanswer⟩ | ⟨hok, hactive', hwork⟩⟩ :=
        resumeProducing_active env hactive o
      · have hflat : o'.bytes = (answers ++ [r]).flatten := by
          rw [hout', hout, List.flatten_append, List.flatten_singleton]
        obtain ⟨proto, hnext, hserving, hload⟩ :=
          ih (List.rel_append hanswers (.cons hanswer .nil)) hflat hwaiting
            (Nat.le_of_succ_le_succ hdepth) (by omega)
        rw [List.append_assoc, List.singleton_append] at hserving
        refine ⟨proto, ?_, hserving, ?_⟩
        · simp only [ProbesProtocol.nextProducer, hok, bind, Except.bind, if_true]
          exact hnext
        · rw [List.map_cons, List.sum_cons]
          omega
      · rw [List.length_cons] at hdepth
        refine ⟨⟨requests, some p', o'⟩, ?_, ⟨answered, answers, hanswers, ?_, line, waiting, r, rfl,
          ?_, hactive', hwaiting⟩, ?_⟩
        · simp only [ProbesProtocol.nextProducer, hok, bind, Except.bind, Bool.false_eq_true,
            if_false]
          rfl
        · dsimp only
          omega
        · rw [hout', hout]
        · simp only [load, Option.elim_some, List.map_cons, List.sum_cons]
          omega

/-- A step of the connection: its lines can be answered, and no more requests wait than may be
started from within each other. -/
def Legal (s : Session) (e : Event) : Prop :=
  ∀ line, e = .line line → Answerable env line ∧ s.proto.requests.length < env.depth

theorem Serving.line {s : Session} (h : Serving env s) (hrounds : 2 ^ 42 ≤ env.rounds)
    {line : List Char} (hline : Answerable env line)
    (hdepth : s.proto.requests.length < env.depth) :
    ∃ t, s.step env (.line line) = some t ∧ Serving env t := by
  obtain ⟨answered, answers, hanswers, -, h⟩ := h
  obtain ⟨p, hparse, hactive⟩ := parse_active env hline hrounds
  cases hproducer : s.proto.producer with
  | none =>
    rw [hproducer] at h
    obtain ⟨hreceived, hrequests, hout⟩ := h
    obtain ⟨proto, hnext, hserving, -⟩ := nextProducer_serving env hanswers hout
      (.cons hactive .nil) (by rw [List.length_singleton]; omega) le_rfl
    refine ⟨⟨proto, answered ++ [line]⟩, ?_, hserving⟩
    simp only [Session.step, ProbesProtocol.lineReceived, hparse, hproducer, hrequests,
      List.nil_append, hnext, hreceived, bind, Except.bind]
    rfl
  | some q =>
    rw [hproducer] at h
    obtain ⟨line', waiting, done, hreceived, hout, hactive', hwaiting⟩ := h
    refine ⟨⟨{ s.proto with requests := s.proto.requests ++ [p] }, s.received ++ [line]⟩, ?_,
      answered, answers, hanswers, ?_, ?_⟩
    · simp only [Session.step, ProbesProtocol.lineReceived, hparse, hproducer, bind, Except.bind]
      rfl
    · dsimp only
      rw [List.length_append, List.length_singleton]
      omega
    · dsimp only
      rw [hproducer]
      refine ⟨line', waiting ++ [line], done, ?_, hout, hactive',
        List.rel_append hwaiting (.cons hactive .nil)⟩
      rw [hreceived, List.append_assoc, List.cons_append]

/-- A call of the transport keeps the connection serving, and gets it on. -/
theorem Serving.resume {s : Session} (h : Serving env s) :
    ∃ t, s.step env .resume = some t ∧ Serving env t ∧ t.received = s.received ∧
      (s.proto.producer = none ∧ t = s ∨ load t.proto < load s.proto) := by
  obtain ⟨answered, answers, hanswers, hdepth, h'⟩ := id h
  cases hproducer : s.proto.producer with
  | none =>
    refine ⟨s, ?_, h, rfl, Or.inl ⟨rfl, rfl⟩⟩
    simp only [Session.step, ProbesProtocol.resume, hproducer]
    rfl
  | some p =>
    rw [hproducer] at h'
    obtain ⟨line, waiting, done, hreceived, hout, hactive, hwaiting⟩ := h'
    have hload : load s.proto = p.work + (s.proto.requests.map Producer.work).sum := by
      rw [load, hproducer, Option.elim_some]
    obtain ⟨p', o', r, hout', ⟨hok, hanswer⟩ | ⟨hok, hactive', hwork⟩⟩ :=
      resumeProducing_active env hactive s.proto.output
    · have hflat : o'.bytes = (answers ++ [done ++ r]).flatten := by
        rw [hout', hout, List.flatten_append, List.flatten_singleton, List.append_assoc]
      obtain ⟨proto, hnext, hserving, hle⟩ := nextProducer_serving env
        (List.rel_append hanswers (.cons hanswer .nil)) hflat hwaiting hdepth le_rfl
      rw [List.append_assoc, List.singleton_append, ← hreceived] at hserving
      have hpos : 0 < p.work := by
        cases p <;> exact Nat.succ_pos _
      refine ⟨⟨proto, s.received⟩, ?_, hserving, rfl, Or.inr ?_⟩
      · simp only [Session.step, ProbesProtocol.resume, hproducer, hok, bind, Except.bind, if_true,
          hnext]
        rfl
      · rw [hload]
        dsimp only
        omega
    · refine ⟨⟨{ s.proto with producer := some p', output := o' }, s.received⟩, ?_,
        ⟨answered, answers, hanswers, hdepth, line, waiting, done ++ r, hreceived, ?_, hactive',
          hwaiting⟩, rfl, Or.inr ?_⟩
      · simp only [Session.step, ProbesProtocol.resume, hproducer, hok, bind, Except.bind,
          Bool.false_eq_true, if_false]
        rfl
      · rw [hout', hout, List.append_assoc]
      · rw [hload]
        simp only [load, Option.elim_some]
        omega

theorem Active.pause {line : List Char} {done : List UInt8} {g : GetProducer}
    (h : Active env line done (.get g)) : Active env line done (.get { g with paused := true }) :=
  h

theorem Serving.pause {s : Session} (h : Serving env s) :
    ∃ t, s.step env .pause = some t ∧ Serving env t := by
  obtain ⟨answered, answers, hanswers, hdepth, h⟩ := h
  refine ⟨_, rfl, answered, answers, hanswers, hdepth, ?_⟩
  cases hproducer : s.proto.producer with
  | none =>
    rw [hproducer] at h
    simp only [ProbesProtocol.pause, hproducer, Option.map_none]
    exact h
  | some p =>
    rw [hproducer] at h
    obtain ⟨line, waiting, done, hreceived, hout, hactive, hwaiting⟩ := h
    simp only [ProbesProtocol.pause, hproducer, Option.map_some]
    refine ⟨line, waiting, done, hreceived, hout, ?_, hwaiting⟩
    cases p with
    | get g => exact hactive.pause
    | error code msg => exact hactive
    | search start stop direction param => exact hactive
    | range => exact hactive

/-! ## Runs -/

/-- The output is a whole answer for each line that is done with, in order, and a part of the
answer to the next line while a producer is at work. -/
def InOrder (s : Session) : Prop :=
  ∃ answered rest answers part, s.received = answered ++ rest ∧
    List.Forall₂ Answers answered answers ∧ s.proto.output.bytes = answers.flatten ++ part ∧
    match s.proto.producer with
    | none => rest = [] ∧ part = []
    | some _ => ∃ line waiting, rest = line :: waiting ∧
        waiting.length = s.proto.requests.length ∧ ∃ r, Answers line (part ++ r)

theorem Active.exists_answer {line : List Char} {done : List UInt8} {p : Producer}
    (h : Active env line done p) : ∃ r, Answers line (done ++ r) := by
  cases p with
  | get g =>
    obtain ⟨files, -, -, -, hanswer⟩ := h
    exact ⟨_, hanswer⟩
  | error code msg =>
    obtain ⟨rfl, h⟩ := h
    obtain ⟨r, -, hanswer⟩ := h {}
    exact ⟨r, hanswer⟩
  | search start stop direction param =>
    obtain ⟨rfl, h⟩ := h
    obtain ⟨r, -, hanswer⟩ := h {}
    exact ⟨r, hanswer⟩
  | range =>
    obtain ⟨rfl, h⟩ := h
    obtain ⟨r, -, hanswer⟩ := h {}
    exact ⟨r, hanswer⟩

theorem Serving.inOrder {s : Session} (h : Serving env s) : InOrder s := by
  obtain ⟨answered, answers, hanswers, -, h⟩ := h
  unfold InOrder
  cases hproducer : s.proto.producer with
  | none =>
    rw [hproducer] at h
    obtain ⟨hreceived, -, hout⟩ := h
    exact ⟨answered, [], answers, [], by rw [hreceived, List.append_nil], hanswers,
      by rw [hout, List.append_nil], rfl, rfl⟩
  | some p =>
    rw [hproducer] at h
    obtain ⟨line, waiting, done, hreceived, hout, hactive, hwaiting⟩ := h
    exact ⟨answered, line :: waiting, answers, done, hreceived, hanswers, hout, line, waiting, rfl,
      hwaiting.length_eq, hactive.exists_answer⟩

end Probes
end Szarp
