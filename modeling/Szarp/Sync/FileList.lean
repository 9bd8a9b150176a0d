import Szarp.Lib.Gregorian
import Szarp.Sync.Message
import Szarp.Sync.Script

/-!
# The file list

`Server::SendFileList` sends the first path of a list as it is and every other one as a script
that makes it of the path before; `Client::GetFileList` runs the scripts.
-/

namespace Szarp
namespace Sync

open Gregorian

/-- `path` is relative to the base directory. -/
structure TPath where
  path : CString
  type : UInt16
  modTime : ℤ
  size : UInt32
deriving DecidableEq

/-! ## The server -/

def pathScript (previous : Option CString) (path : CString) : Option CString :=
  match previous with
  | none => some path
  | some p => (createScript p.val path.val).map toCString

def fileValues (script : CString) (file : TPath) : List Value :=
  let time := gmtime file.modTime
  [.uint16 file.type, .string script, .uint32 file.size, .uint16 (UInt16.ofInt time.tmYear),
    .byte (UInt8.ofInt time.tmMon), .byte (UInt8.ofInt time.tmMday),
    .byte (UInt8.ofInt time.tmHour), .byte (UInt8.ofInt time.tmMin)]

/-- The `for` loop of `SendFileList`. -/
def listValues : Option CString → List TPath → Option (List Value)
  | _, [] => some []
  | previous, file :: files => do
    let script ← pathScript previous file.path
    let rest ← listValues (some file.path) files
    some (fileValues script file ++ rest)

def sendFileList (files : List TPath) : Option (List Packet) := do
  let values ← listValues none files
  sendMessage (.uint32 (UInt32.ofNat files.length) :: values)

/-! ## The client

An exception, a failed assertion and an access outside a buffer all make the result `none`. -/

def pathOfScript (previous : Option CString) (script : CString) : Option CString :=
  match previous with
  | none => some script
  | some p => (executeScript p.val script.val).map toCString

/-- One pass of the loop of `GetFileList`. -/
def getFile (previous : Option CString) (r : MessageReceiver) :
    Option (TPath × MessageReceiver) := do
  let (type, r) ← r.getUInt16.toOption
  let (script, r) ← r.getString.toOption
  let path ← pathOfScript previous script
  let (size, r) ← r.getUInt32.toOption
  let (year, r) ← r.getUInt16.toOption
  let (mon, r) ← r.getByte.toOption
  let (mday, r) ← r.getByte.toOption
  let (hour, r) ← r.getByte.toOption
  let (min, r) ← r.getByte.toOption
  let modTime := timegm ⟨year.toNat, mon.toNat, mday.toNat, hour.toNat, min.toNat, 0⟩
  some (⟨path, type, modTime, size⟩, r)

def getFiles : ℕ → Option CString → MessageReceiver → Option (List TPath × MessageReceiver)
  | 0, _, r => some ([], r)
  | n + 1, previous, r => do
    let (file, r) ← getFile previous r
    let (files, r) ← getFiles n (some file.path) r
    some (file :: files, r)

def getFileList (r : MessageReceiver) : Option (List TPath × MessageReceiver) := do
  let (count, r) ← r.getUInt32.toOption
  getFiles count.toNat none r

/-- A file list on its way from the server to the client. -/
def exchangeFileList (files : List TPath) : Option (List TPath) := do
  let packets ← sendFileList files
  let (received, _) ← getFileList (MessageReceiver.init packets)
  some received

/-! ## One file -/

/-- The modification time as the client computes it. -/
def transmittedTime (modTime : ℤ) : ℤ :=
  let time := gmtime modTime
  timegm ⟨(UInt16.ofInt time.tmYear).toNat, (UInt8.ofInt time.tmMon).toNat,
    (UInt8.ofInt time.tmMday).toNat, (UInt8.ofInt time.tmHour).toNat,
    (UInt8.ofInt time.tmMin).toNat, 0⟩

theorem getFile_spec {previous : Option CString} {script : CString} {file : TPath}
    (hs : script.val.length < 128 * 128) {r : MessageReceiver} {rest : List Byte}
    {more : List Packet}
    (h : r.Before ((fileValues script file).flatMap MessageSender.encode ++ rest) more) :
    ∃ r', r'.Before rest more ∧ getFile previous r =
      (pathOfScript previous script).map fun path =>
        (⟨path, file.type, transmittedTime file.modTime, file.size⟩, r') := by
  have hmod : script.val.length % 2 ^ 16 = script.val.length := Nat.mod_eq_of_lt (by omega)
  have hstr := MessageReceiver.getString_parses script.property (by omega)
  simp only [hmod, List.take_length] at hstr
  simp only [fileValues, List.flatMap_cons, List.flatMap_nil, List.append_nil,
    List.append_assoc, MessageSender.encode] at h
  obtain ⟨r₁, e₁, h⟩ := MessageReceiver.getUInt16_parses _ r _ more h
  obtain ⟨r₂, e₂, h⟩ := hstr r₁ _ more h
  obtain ⟨r₃, e₃, h⟩ := MessageReceiver.getUInt32_parses _ r₂ _ more h
  obtain ⟨r₄, e₄, h⟩ := MessageReceiver.getUInt16_parses _ r₃ _ more h
  obtain ⟨r₅, e₅, h⟩ := MessageReceiver.getByte_parses _ r₄ _ more h
  obtain ⟨r₆, e₆, h⟩ := MessageReceiver.getByte_parses _ r₅ _ more h
  obtain ⟨r₇, e₇, h⟩ := MessageReceiver.getByte_parses _ r₆ _ more h
  obtain ⟨r₈, e₈, h⟩ := MessageReceiver.getByte_parses _ r₇ _ more h
  refine ⟨r₈, h, ?_⟩
  rw [getFile]
  simp only [e₁, e₂, e₃, e₄, e₅, e₆, e₇, e₈, Except.toOption, Option.bind_eq_bind,
    Option.bind_some]
  cases pathOfScript previous script <;> rfl

/-! ## Chains of paths -/

/-- The script of a path that comes after `previous` has no number of two digits. -/
def Follows (previous : Option CString) (path : CString) : Prop :=
  ∀ p, previous = some p → Fits p.val path.val

theorem toCString_val (s : CString) : toCString s.val = s := toCString_of_zero_free s.property

theorem pathScript_spec {previous : Option CString} {path : CString}
    (hprev : ∀ p, previous = some p → IsPath p.val) (hpath : IsPath path.val) :
    ∃ script, pathScript previous path = some script ∧ script.val.length < 2 ^ 16 ∧
      (Follows previous path →
        script.val.length < 128 * 128 ∧ pathOfScript previous script = some path) ∧
      ((∀ c ∈ path.val, 3 < c) → pathOfScript previous script = some path →
        Follows previous path) := by
  cases previous with
  | none =>
    have hlen := hpath.length_lt
    exact ⟨path, rfl, by omega, fun _ => ⟨by omega, rfl⟩, fun _ _ p hp => by simp at hp⟩
  | some p =>
    have hp := hprev p rfl
    obtain ⟨script, hs, h0, hlen, hshort⟩ := createScript_spec hp hpath
    refine ⟨⟨script, h0⟩, ?_, hlen, fun hf => ?_, fun hgt hex => ?_⟩
    · rw [pathScript, hs, Option.map_some, toCString_of_zero_free h0]
    · have hfits := hf p rfl
      refine ⟨hshort hfits, ?_⟩
      have hback := executeScript_createScript hp hpath hfits
      rw [hs, Option.bind_some] at hback
      rw [pathOfScript, hback, Option.map_some, toCString_val]
    · rintro q hq
      obtain rfl := Option.some.inj hq
      refine fits_of_executeScript hp hpath hgt ?_
      rw [hs, Option.bind_some]
      rw [pathOfScript, Option.map_eq_some_iff] at hex
      obtain ⟨x, hx, hxp⟩ := hex
      have hx0 : 0 ∉ x := by
        simp only [executeScript, Option.bind_eq_bind, Option.bind_eq_some_iff] at hx
        obtain ⟨-, -, r, -, hr⟩ := hx
        exact cstring_zero_free hr
      rw [toCString_of_zero_free hx0] at hxp
      rw [hx, ← hxp]

/-- Every path of the list follows the one before it. -/
def FollowsAll : Option CString → List TPath → Prop
  | _, [] => True
  | previous, file :: files => Follows previous file.path ∧ FollowsAll (some file.path) files

theorem followsAll_iff_isChain (files : List TPath) :
    FollowsAll none files ↔ files.IsChain fun f g => Fits f.path.val g.path.val := by
  have hsome : ∀ (f : TPath) (files : List TPath), FollowsAll (some f.path) files ↔
      (f :: files).IsChain fun f g => Fits f.path.val g.path.val := by
    intro f files
    induction files generalizing f with
    | nil => simp [FollowsAll]
    | cons g files ih =>
      rw [FollowsAll, ih g, List.isChain_cons_cons]
      simp [Follows]
  cases files with
  | nil => simp [FollowsAll]
  | cons f files =>
    rw [FollowsAll, hsome f files]
    simp [Follows]

/-- A file as the client gets it. -/
def TPath.transmitted (file : TPath) : TPath :=
  { file with modTime := transmittedTime file.modTime }

theorem fileValues_puttable {script : CString} {file : TPath} :
    (∀ v ∈ fileValues script file, MessageSender.Puttable v) ↔
      script.val.length % 2 ^ 16 < 128 * 128 := by
  simp [fileValues, MessageSender.Puttable]

theorem getFiles_of_followsAll {previous : Option CString} {files : List TPath}
    (hprev : ∀ p, previous = some p → IsPath p.val) (hfiles : ∀ f ∈ files, IsPath f.path.val)
    (h : FollowsAll previous files) :
    ∃ values, listValues previous files = some values ∧
      (∀ v ∈ values, MessageSender.Puttable v) ∧
      ∀ r rest more, r.Before (values.flatMap MessageSender.encode ++ rest) more →
        ∃ r', getFiles files.length previous r = some (files.map TPath.transmitted, r') ∧
          r'.Before rest more := by
  induction files generalizing previous with
  | nil => exact ⟨[], rfl, by simp, fun r rest more hr => ⟨r, rfl, hr⟩⟩
  | cons f files ih =>
    have hf := hfiles f (by simp)
    obtain ⟨script, hs, -, hfollows, -⟩ := pathScript_spec hprev hf
    obtain ⟨hlen, hpath⟩ := hfollows h.1
    obtain ⟨values, hv, hput, hget⟩ := ih
      (fun p (hp : some f.path = some p) => Option.some.inj hp ▸ hf)
      (fun g hg => hfiles g (by simp [hg])) h.2
    refine ⟨fileValues script f ++ values, ?_, ?_, fun r rest more hr => ?_⟩
    · simp [listValues, hs, hv]
    · intro v hv
      rcases List.mem_append.mp hv with hv | hv
      · exact fileValues_puttable.mpr (by omega) v hv
      · exact hput v hv
    · rw [List.flatMap_append, List.append_assoc] at hr
      obtain ⟨r₁, h₁, hfile⟩ := getFile_spec hlen hr
      obtain ⟨r₂, hrest, h₂⟩ := hget r₁ rest more h₁
      refine ⟨r₂, ?_, h₂⟩
      rw [List.length_cons, getFiles, hfile, hpath]
      simp only [Option.map_some, Option.bind_eq_bind, Option.bind_some, hrest]
      rfl

theorem followsAll_of_getFiles {previous : Option CString} {files : List TPath}
    (hprev : ∀ p, previous = some p → IsPath p.val) (hfiles : ∀ f ∈ files, IsPath f.path.val)
    (hgt : ∀ f ∈ files, ∀ c ∈ f.path.val, 3 < c) {values : List Value}
    (hv : listValues previous files = some values)
    (hput : ∀ v ∈ values, MessageSender.Puttable v) {r r' : MessageReceiver} {rest : List Byte}
    {more : List Packet} (hr : r.Before (values.flatMap MessageSender.encode ++ rest) more)
    {got : List TPath} (hget : getFiles files.length previous r = some (got, r'))
    (hgot : got.map TPath.path = files.map TPath.path) : FollowsAll previous files := by
  induction files generalizing previous values r got with
  | nil => trivial
  | cons f files ih =>
    have hf := hfiles f (by simp)
    obtain ⟨script, hs, hlen, -, hback⟩ := pathScript_spec hprev hf
    simp only [listValues, hs, Option.bind_eq_bind, Option.bind_some] at hv
    rw [Option.bind_eq_some_iff] at hv
    obtain ⟨values', hv', hvs⟩ := hv
    obtain rfl := Option.some.inj hvs
    have hshort := fileValues_puttable.mp fun v hv => hput v (List.mem_append_left _ hv)
    rw [Nat.mod_eq_of_lt hlen] at hshort
    rw [List.flatMap_append, List.append_assoc] at hr
    obtain ⟨r₁, h₁, hfile⟩ := getFile_spec hshort hr
    rw [List.length_cons, getFiles, hfile] at hget
    cases hpath : pathOfScript previous script with
    | none =>
      rw [hpath] at hget
      simp at hget
    | some path =>
      simp only [hpath, Option.map_some, Option.bind_eq_bind, Option.bind_some] at hget
      rw [Option.bind_eq_some_iff] at hget
      obtain ⟨⟨got', r₂⟩, hget', hcons⟩ := hget
      rw [Option.some.injEq, Prod.mk.injEq] at hcons
      obtain ⟨rfl, rfl⟩ := hcons
      rw [List.map_cons, List.map_cons, List.cons.injEq] at hgot
      obtain ⟨rfl, hgot'⟩ := hgot
      refine ⟨hback (hgt f (by simp)) hpath, ?_⟩
      exact ih (fun p hp => Option.some.inj hp ▸ hf) (fun g hg => hfiles g (by simp [hg]))
        (fun g hg => hgt g (by simp [hg])) hv'
        (fun v hv => hput v (List.mem_append_right _ hv)) h₁ hget' hgot'

/-! ## The whole list -/

/-- The client has the paths of the server. -/
def SamePaths (files : List TPath) : Prop :=
  (exchangeFileList files).map (List.map TPath.path) = some (files.map TPath.path)

/-- The whole list is in front of the receiver when the message has been sent. -/
theorem exchangeFileList_eq {files : List TPath} {values : List Value}
    (hv : listValues none files = some values) (hput : ∀ v ∈ values, MessageSender.Puttable v) :
    ∃ r, r.Before (values.flatMap MessageSender.encode ++ []) [] ∧
      exchangeFileList files =
        (getFiles (files.length % 2 ^ 32) none r).map fun x => x.1 := by
  obtain ⟨ps, hsend, hps, hbytes⟩ :=
    sendMessage_spec (List.cons_ne_nil (.uint32 (UInt32.ofNat files.length)) values) (by
      intro v hv
      rcases List.mem_cons.mp hv with rfl | hv
      · trivial
      · exact hput v hv)
  have hbefore := MessageReceiver.before_init hps []
  rw [hbytes, List.append_nil, List.flatMap_cons, MessageSender.encode,
    ← List.append_nil (values.flatMap _)] at hbefore
  obtain ⟨r, hcount, hr⟩ := MessageReceiver.getUInt32_parses _ _ _ [] hbefore
  refine ⟨r, hr, ?_⟩
  simp only [exchangeFileList, sendFileList, hv, hsend, getFileList, hcount, Except.toOption,
    Option.bind_eq_bind, Option.bind_some, UInt32.toNat_ofNat']
  cases getFiles (files.length % 2 ^ 32) none r <;> rfl

theorem samePaths_of_isChain {files : List TPath} (hfiles : ∀ f ∈ files, IsPath f.path.val)
    (hcount : files.length < 2 ^ 32)
    (h : files.IsChain fun f g => Fits f.path.val g.path.val) : SamePaths files := by
  have hnone : ∀ p, (none : Option CString) = some p → IsPath p.val := by simp
  obtain ⟨values, hv, hput, hget⟩ := getFiles_of_followsAll hnone hfiles
    ((followsAll_iff_isChain files).mpr h)
  obtain ⟨r, hr, he⟩ := exchangeFileList_eq hv hput
  obtain ⟨r', hfiles', -⟩ := hget r [] [] hr
  rw [SamePaths, he, Nat.mod_eq_of_lt hcount, hfiles']
  simp [TPath.transmitted, Function.comp_def]

theorem getFiles_length {n : ℕ} {previous : Option CString} {r r' : MessageReceiver}
    {got : List TPath} (h : getFiles n previous r = some (got, r')) : got.length = n := by
  induction n generalizing previous r got with
  | zero =>
    rw [getFiles, Option.some.injEq, Prod.mk.injEq] at h
    rw [← h.1]
    rfl
  | succ n ih =>
    simp only [getFiles, Option.bind_eq_bind, Option.bind_eq_some_iff] at h
    obtain ⟨⟨f, r₁⟩, -, ⟨rest, r₂⟩, hrest, hcons⟩ := h
    rw [Option.some.injEq, Prod.mk.injEq] at hcons
    obtain ⟨rfl, rfl⟩ := hcons
    rw [List.length_cons, ih hrest]

theorem isChain_of_samePaths {files : List TPath} (hfiles : ∀ f ∈ files, IsPath f.path.val)
    (hgt : ∀ f ∈ files, ∀ c ∈ f.path.val, 3 < c) (h : SamePaths files) :
    files.length < 2 ^ 32 ∧ files.IsChain fun f g => Fits f.path.val g.path.val := by
  rw [SamePaths, Option.map_eq_some_iff] at h
  obtain ⟨got, hex, hgot⟩ := h
  have hsent := hex
  rw [exchangeFileList, Option.bind_eq_bind, Option.bind_eq_some_iff] at hsent
  obtain ⟨ps, hps, -⟩ := hsent
  rw [sendFileList, Option.bind_eq_bind, Option.bind_eq_some_iff] at hps
  obtain ⟨values, hv, hsend⟩ := hps
  have hput : ∀ v ∈ values, MessageSender.Puttable v :=
    fun v hv => puttable_of_sendMessage hsend v (by simp [hv])
  obtain ⟨r, hr, he⟩ := exchangeFileList_eq hv hput
  rw [he, Option.map_eq_some_iff] at hex
  obtain ⟨⟨got', r'⟩, hget, rfl⟩ := hex
  have hlen := getFiles_length hget
  have hlen' : got'.length = files.length := by simpa using congrArg List.length hgot
  have hcount : files.length % 2 ^ 32 = files.length := hlen.symm.trans hlen'
  rw [hcount] at hget
  refine ⟨by omega, (followsAll_iff_isChain files).mp ?_⟩
  exact followsAll_of_getFiles (by simp) hfiles hgt hv hput hr hget hgot

/-- A script brings a path back when none of its numbers has two digits, and a list comes back
when that holds for every two neighbours; for paths without the opcode bytes 1, 2 and 3 only
then. -/
theorem paths_come_back (a b : List Byte) (ha : IsPath a) (hb : IsPath b) (files : List TPath)
    (hfiles : ∀ f ∈ files, IsPath f.path.val) :
    (Fits a b → (createScript a b).bind (executeScript a) = some b) ∧
    ((∀ c ∈ b, 3 < c) → ((createScript a b).bind (executeScript a) = some b ↔ Fits a b)) ∧
    ((files.length < 2 ^ 32 ∧ files.IsChain fun f g => Fits f.path.val g.path.val) →
      SamePaths files) ∧
    ((∀ f ∈ files, ∀ c ∈ f.path.val, 3 < c) →
      (SamePaths files ↔
        files.length < 2 ^ 32 ∧ files.IsChain fun f g => Fits f.path.val g.path.val)) := by
  have hscript := executeScript_createScript ha hb
  have hlist := fun h => samePaths_of_isChain hfiles (And.left h) (And.right h)
  refine ⟨hscript, fun hgt => ?_, hlist, fun hgt => ?_⟩
  · exact ⟨fits_of_executeScript ha hb hgt, hscript⟩
  · exact ⟨isChain_of_samePaths hfiles hgt, hlist⟩

def pathA : List Byte := [100, 47, 97]

def pathBc : List Byte := [100, 47, 98, 99]

/-- The files `d/a` and `d/bc`. -/
def dirFiles : List TPath :=
  [⟨⟨pathA, by decide⟩, 1, 0, 1⟩, ⟨⟨pathBc, by decide⟩, 1, 0, 1⟩]

theorem paths_come_back_dir :
    (createScript pathA pathBc).bind (executeScript pathA) = some pathBc ∧
      SamePaths dirFiles := by
  have ha : IsPath pathA := ⟨by decide, by decide⟩
  have hb : IsPath pathBc := ⟨by decide, by decide⟩
  have hfiles : ∀ f ∈ dirFiles, IsPath f.path.val := by
    intro f hf
    rcases List.mem_cons.mp hf with rfl | hf
    · exact ha
    · obtain rfl := List.mem_singleton.mp hf
      exact hb
  have hfits : Fits pathA pathBc := by
    refine ⟨fun p hp => ?_, fun p hp => ?_, by decide⟩
    · have h1 := hp.1.1
      have h2 := hp.2.2
      simp only [pathA, pathBc, common, List.length_cons, List.length_nil] at h1
      omega
    · have h1 := (hp 3 (by decide)).1
      simp only [pathA, pathBc, common, List.length_cons, List.length_nil] at h1
      omega
  obtain ⟨hscript, -, hlist, -⟩ := paths_come_back pathA pathBc ha hb dirFiles hfiles
  exact ⟨hscript hfits, hlist ⟨by decide, List.isChain_pair.mpr hfits⟩⟩

/-- The last byte of a path of 127 bytes is written over the first one. -/
theorem paths_come_back_fails :
    ¬ ∀ a b : List Byte, IsPath a → IsPath b →
      (createScript a b).bind (executeScript a) = some b := by
  intro h
  have hpath : ∀ c : Byte, c ≠ 0 → IsPath (List.replicate 126 120 ++ [c]) := by
    intro c hc
    refine ⟨by simp [Ne.symm hc], ?_⟩
    simp only [List.length_append, List.length_replicate, List.length_singleton]
    omega
  have hback := h _ _ (hpath 121 (by decide)) (hpath 122 (by decide))
  exact absurd hback (by decide +kernel)

end Sync
end Szarp
