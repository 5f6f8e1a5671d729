/-
Calls that load from one loader at once. However their steps are mixed and whatever happens to the files
meanwhile, all calls for one name that succeed hand out one document: the text that the file had before
the first of them succeeded. A call that fails leaves nothing behind.
-/
import Amend.Files.Desk
import Amend.Proofs.Codec.Registry
import Amend.Proofs.Files.Loader
import Mathlib

namespace Amend

open Codec (Bytes Encoding)

namespace Loader

/-- A document is fetched exactly if its file can be read and its bytes are a text of the codec. -/
theorem fetch_eq_ok_iff {loader : Loader} {tree : FileTree} {path : String} {document : Document} :
    loader.fetch tree path = .ok document ↔ document.path = path ∧ '\x00' ∉ loader.encoding.toList ∧
      ∃ codec bytes, loader.codecs.find? loader.encoding = some codec ∧
        tree.read (loader.resolve path) = .ok bytes ∧ codec.decode bytes = .ok document.text := by
  constructor
  · intro h
    have hpath := loader.fetch_path tree path h
    obtain ⟨name, text⟩ := document
    obtain rfl : name = path := hpath
    have hfetch := h
    unfold fetch at hfetch
    split at hfetch
    · cases hfetch
    · rename_i hnul
      have hnul : '\x00' ∉ loader.encoding.toList := by simpa using hnul
      rcases hread : tree.read (loader.resolve name) with fault | bytes
      · rw [hread] at hfetch; cases hfetch
      · rcases hname : loader.codecs.find? loader.encoding with _ | codec
        · rw [hread, hname] at hfetch; cases hfetch
        · exact ⟨rfl, hnul, codec, bytes, rfl, rfl, (fetch_ok_iff loader tree name hnul hname hread text).1 h⟩
  · rintro ⟨rfl, hnul, codec, bytes, hname, hread, hdecode⟩
    exact (fetch_ok_iff loader tree document.path hnul hname hread document.text).2 hdecode

end Loader

namespace Desk

/-! ## One step -/

/-- All ways a call for a name can move on at a desk, with the loader it leaves. -/
inductive Turn (desk : Desk) (path : String) : Progress → Progress → Loader → Prop
  | known (document : Document) (h : desk.loader.kept? path = some document) :
      Turn desk path .asked (.answered (.ok document)) desk.loader
  | missed (h : desk.loader.kept? path = none) : Turn desk path .asked .missed desk.loader
  | failed (fault : LoadFault) (h : desk.loader.fetch desk.tree path = .error fault) :
      Turn desk path .missed (.answered (.error fault)) desk.loader
  | fetched (document : Document) (h : desk.loader.fetch desk.tree path = .ok document) :
      Turn desk path .missed (.fetched document) desk.loader
  | late (document kept : Document) (h : desk.loader.kept? document.path = some kept) :
      Turn desk path (.fetched document) (.answered (.ok kept)) desk.loader
  | first (document : Document) (h : desk.loader.kept? document.path = none) :
      Turn desk path (.fetched document) (.answered (.ok document)) (desk.loader.preload document)

theorem calls_enter {desk : Desk} {i : Nat} {path : String} {progress : Progress}
    (hi : desk.calls[i]? = some ⟨path, progress⟩) (next : Progress) (j : Nat) :
    (desk.enter i next).calls[j]? = if i = j then some ⟨path, next⟩ else desk.calls[j]? := by
  unfold enter
  rw [List.getElem?_modify]
  split
  · subst j
    rw [hi]
    rfl
  · rw [id_map']

/-- A turn of a call: it is over or not there and nothing changes, or it moves on. -/
theorem turn_cases (desk : Desk) (i : Nat) :
    desk.turn i = desk ∨ ∃ path progress next, desk.calls[i]? = some ⟨path, progress⟩ ∧
      Turn desk path progress next (desk.turn i).loader ∧
      ∀ j, (desk.turn i).calls[j]? = if i = j then some ⟨path, next⟩ else desk.calls[j]? := by
  rcases hi : desk.calls[i]? with _ | ⟨path, progress⟩
  · exact .inl (by simp only [turn, hi])
  · cases progress with
    | asked =>
      rcases hk : desk.loader.kept? path with _ | document
      · have hturn : desk.turn i = desk.enter i .missed := by simp only [turn, hi, hk]
        rw [hturn]
        exact .inr ⟨_, _, _, rfl, .missed hk, calls_enter hi _⟩
      · have hturn : desk.turn i = desk.enter i (.answered (.ok document)) := by simp only [turn, hi, hk]
        rw [hturn]
        exact .inr ⟨_, _, _, rfl, .known document hk, calls_enter hi _⟩
    | missed =>
      rcases hf : desk.loader.fetch desk.tree path with fault | document
      · have hturn : desk.turn i = desk.enter i (.answered (.error fault)) := by simp only [turn, hi, hf]
        rw [hturn]
        exact .inr ⟨_, _, _, rfl, .failed fault hf, calls_enter hi _⟩
      · have hturn : desk.turn i = desk.enter i (.fetched document) := by simp only [turn, hi, hf]
        rw [hturn]
        exact .inr ⟨_, _, _, rfl, .fetched document hf, calls_enter hi _⟩
    | fetched document =>
      rcases hk : desk.loader.kept? document.path with _ | kept
      · have hturn : desk.turn i =
            { desk with loader := desk.loader.preload document }.enter i (.answered (.ok document)) := by
          simp only [turn, hi, Loader.keep, hk]
        rw [hturn]
        exact .inr ⟨_, _, _, rfl, .first document hk,
          calls_enter (show (Desk.calls { desk with loader := desk.loader.preload document })[i]? = _ from hi) _⟩
      · have hturn : desk.turn i = desk.enter i (.answered (.ok kept)) := by
          simp only [turn, hi, Loader.keep, hk]
        rw [hturn]
        exact .inr ⟨_, _, _, rfl, .late document kept hk, calls_enter hi _⟩
    | answered result => exact .inl (by simp only [turn, hi])

theorem Turn.not_answered {desk : Desk} {path : String} {progress next : Progress} {loader : Loader}
    (h : Turn desk path progress next loader) (result : Except LoadFault Document) : progress ≠ .answered result := by
  rintro rfl
  cases h

/-- The loader changes only in a turn in which its call succeeds. -/
theorem Turn.loader_cases {desk : Desk} {path : String} {progress next : Progress} {loader : Loader}
    (h : Turn desk path progress next loader) : loader = desk.loader ∨
      ∃ document, progress = .fetched document ∧ next = .answered (.ok document) := by
  cases h with
  | first document h => exact .inr ⟨document, rfl, rfl⟩
  | _ => exact .inl rfl

/-- A turn keeps how files are found and read, and all that was kept before. -/
theorem Turn.frame {desk : Desk} {path : String} {progress next : Progress} {loader : Loader}
    (h : Turn desk path progress next loader) : loader.Alike desk.loader ∧ loader.Extends desk.loader := by
  cases h with
  | first document h =>
    refine ⟨⟨rfl, rfl, rfl⟩, fun other found hother => ?_⟩
    rw [Loader.kept?_preload, if_neg (by rintro rfl; rw [h] at hother; cases hother)]
    exact hother
  | _ => exact ⟨.refl _, desk.loader.extends_refl⟩

theorem Turn.fetched_inv {desk : Desk} {path : String} {progress : Progress} {document : Document} {loader : Loader}
    (h : Turn desk path progress (.fetched document) loader) : desk.loader.fetch desk.tree path = .ok document := by
  cases h
  assumption

/-- What is kept after a turn was kept before it, or is what the call had read while nothing was kept. -/
theorem Turn.kept_cases {desk : Desk} {path : String} {progress next : Progress} {loader : Loader}
    (h : Turn desk path progress next loader) {other : String} {document : Document}
    (hk : loader.kept? other = some document) : desk.loader.kept? other = some document ∨
      progress = .fetched document ∧ document.path = other ∧ desk.loader.kept? other = none := by
  cases h with
  | first found h =>
    rw [Loader.kept?_preload] at hk
    split at hk
    · cases hk
      subst other
      exact .inr ⟨rfl, rfl, h⟩
    · exact .inl hk
  | _ => exact .inl hk

/-- After a turn just those documents are kept that were kept before it or that it answers with. -/
theorem Turn.kept_iff {desk : Desk} {path : String} {progress next : Progress} {loader : Loader}
    (h : Turn desk path progress next loader) (hown : ∀ document, progress = .fetched document → document.path = path)
    (other : String) (document : Document) : loader.kept? other = some document ↔
      desk.loader.kept? other = some document ∨ path = other ∧ next = .answered (.ok document) := by
  cases h with
  | known found h =>
    refine (or_iff_left_of_imp ?_).symm
    rintro ⟨rfl, ⟨⟩⟩
    exact h
  | late read found h =>
    rw [hown read rfl] at h
    refine (or_iff_left_of_imp ?_).symm
    rintro ⟨rfl, ⟨⟩⟩
    exact h
  | first read h =>
    rw [hown read rfl] at h
    rw [Loader.kept?_preload, hown read rfl]
    by_cases ho : path = other
    · subst other
      simp [h]
    · simp [ho]
  | _ => simp

/-- Was the document handed out for the name? -/
def Hands (desk : Desk) (path : String) (document : Document) : Prop :=
  ∃ i : Nat, desk.calls[i]? = some ⟨path, .answered (.ok document)⟩

/-- A turn hands out what it answers, and takes nothing back. -/
theorem hands_iff {desk later : Desk} {i : Nat} {path : String} {progress next : Progress}
    (hi : desk.calls[i]? = some ⟨path, progress⟩) (hopen : ∀ result, progress ≠ .answered result)
    (hcalls : ∀ j, later.calls[j]? = if i = j then some ⟨path, next⟩ else desk.calls[j]?)
    (other : String) (document : Document) : later.Hands other document ↔
      desk.Hands other document ∨ path = other ∧ next = .answered (.ok document) := by
  unfold Hands
  constructor
  · rintro ⟨j, hj⟩
    rw [hcalls] at hj
    split at hj
    · cases hj
      exact .inr ⟨rfl, rfl⟩
    · exact .inl ⟨j, hj⟩
  · rintro (⟨j, hj⟩ | ⟨rfl, rfl⟩)
    · refine ⟨j, ?_⟩
      rw [hcalls, if_neg, hj]
      rintro rfl
      rw [hi] at hj
      cases hj
      exact hopen _ rfl
    · exact ⟨i, by rw [hcalls, if_pos rfl]⟩

/-! ## All steps -/

theorem run_concat (desk : Desk) (course : List Happening) (event : Happening) :
    desk.run (course ++ [event]) = (desk.run course).step event := by
  unfold run
  rw [List.foldl_append]
  rfl

/-- What holds of a desk after a course of things, if nothing was kept at the start. -/
structure Sound (desk : Desk) (course : List Happening) : Prop where
  alike : (desk.run course).loader.Alike desk.loader
  /-- What a call has read was in the file at some time. -/
  fetched : ∀ (i : Nat) path document, (desk.run course).calls[i]? = some ⟨path, .fetched document⟩ →
    ∃ before, before <+: course ∧ desk.loader.fetch (desk.run before).tree path = .ok document
  /-- The documents handed out are those that are kept. -/
  handed : ∀ path document, (desk.run course).Hands path document ↔ (desk.run course).loader.kept? path = some document
  /-- What is kept was in the file at a time when nothing was kept. -/
  kept : ∀ path document, (desk.run course).loader.kept? path = some document →
    ∃ before, before <+: course ∧ (desk.run before).loader.kept? path = none ∧
      desk.loader.fetch (desk.run before).tree path = .ok document

theorem run_extends (desk : Desk) (before later : List Happening) :
    (desk.run (before ++ later)).loader.Extends (desk.run before).loader := by
  induction later using List.reverseRecOn with
  | nil => rw [List.append_nil]; exact Loader.extends_refl _
  | append_singleton later event ih =>
    rw [← List.append_assoc, run_concat]
    refine Loader.Extends.trans ?_ ih
    cases event with
    | change tree => exact Loader.extends_refl _
    | turn i =>
      rcases turn_cases (desk.run (before ++ later)) i with h | ⟨path, progress, next, -, hturn, -⟩
      · rw [step, h]; exact Loader.extends_refl _
      · exact hturn.frame.2

/-- A step that leaves calls and loader alone keeps everything. -/
theorem Sound.of_same {desk : Desk} {course : List Happening} {event : Happening} (h : Sound desk course)
    (hloader : ((desk.run course).step event).loader = (desk.run course).loader)
    (hcalls : ((desk.run course).step event).calls = (desk.run course).calls) : Sound desk (course ++ [event]) where
  alike := by rw [run_concat, hloader]; exact h.alike
  fetched i path document hi := by
    rw [run_concat, hcalls] at hi
    obtain ⟨before, hbefore, hfetch⟩ := h.fetched i path document hi
    exact ⟨before, hbefore.trans (List.prefix_append ..), hfetch⟩
  handed path document := by
    rw [run_concat, hloader, ← h.handed]
    unfold Hands
    rw [hcalls]
  kept path document hk := by
    rw [run_concat, hloader] at hk
    obtain ⟨before, hbefore, hnone, hfetch⟩ := h.kept path document hk
    exact ⟨before, hbefore.trans (List.prefix_append ..), hnone, hfetch⟩

theorem Sound.turn {desk : Desk} {course : List Happening} (h : Sound desk course) (i : Nat) :
    Sound desk (course ++ [.turn i]) := by
  have hrun : desk.run (course ++ [.turn i]) = (desk.run course).turn i := run_concat ..
  have hgrow : course <+: course ++ [Happening.turn i] := List.prefix_append ..
  have hnow : ∀ path, (desk.run course).loader.fetch (desk.run course).tree path =
      desk.loader.fetch (desk.run course).tree path := fun path => h.alike.fetch _ path
  rcases turn_cases (desk.run course) i with hsame | ⟨path, progress, next, hi, hturn, hcalls⟩
  · exact h.of_same (congrArg Desk.loader hsame) (congrArg Desk.calls hsame)
  have halike : ((desk.run course).turn i).loader.Alike (desk.run course).loader := hturn.frame.1
  rw [← hrun] at hturn hcalls halike
  have hhands := hands_iff hi hturn.not_answered hcalls
  have hread : ∀ document, progress = .fetched document → document.path = path ∧
      ∃ before, before <+: course ∧ desk.loader.fetch (desk.run before).tree path = .ok document := by
    rintro document rfl
    obtain ⟨before, hbefore, hfetch⟩ := h.fetched i path document hi
    exact ⟨desk.loader.fetch_path _ _ hfetch, before, hbefore, hfetch⟩
  refine ⟨halike.trans h.alike, fun j other document hj => ?_, fun other document => ?_,
    fun other document hk => ?_⟩
  · rw [hcalls] at hj
    split at hj
    · cases hj
      exact ⟨course, hgrow, hnow path ▸ hturn.fetched_inv⟩
    · obtain ⟨before, hbefore, hfetch⟩ := h.fetched j other document hj
      exact ⟨before, hbefore.trans hgrow, hfetch⟩
  · rw [hhands, h.handed, hturn.kept_iff fun read hp => (hread read hp).1]
  · rcases hturn.kept_cases hk with hk | ⟨rfl, hpath, hnone⟩
    · obtain ⟨before, hbefore, hnone, hfetch⟩ := h.kept other document hk
      exact ⟨before, hbefore.trans hgrow, hnone, hfetch⟩
    · -- nothing is kept now, so nothing was kept either when the call read the file
      obtain ⟨hown, before, ⟨later, rfl⟩, hfetch⟩ := hread document rfl
      obtain rfl : path = other := hown.symm.trans hpath
      refine ⟨before, (List.prefix_append ..).trans hgrow, ?_, hfetch⟩
      rcases hb : (desk.run before).loader.kept? path with _ | earlier
      · rfl
      · rw [run_extends desk before later path earlier hb] at hnone
        cases hnone

theorem sound_run {desk : Desk} (hkept : ∀ path, desk.loader.kept? path = none)
    (hasked : ∀ call ∈ desk.calls, call.progress = .asked) (course : List Happening) : Sound desk course := by
  induction course using List.reverseRecOn with
  | nil =>
    refine ⟨.refl _, fun i path document hi => ?_, fun path document => ?_, fun path document hk => ?_⟩
    · cases hasked _ (List.mem_of_getElem? hi)
    · refine iff_of_false ?_ (by rw [show desk.run [] = desk from rfl, hkept]; nofun)
      rintro ⟨i, hi⟩
      cases hasked _ (List.mem_of_getElem? hi)
    · rw [show desk.run [] = desk from rfl, hkept] at hk
      cases hk
  | append_singleton course event ih =>
    cases event with
    | turn i => exact ih.turn i
    | change tree => exact ih.of_same rfl rfl

/-! ## Documents of one name -/

/-- Turns of a call that no other one comes between are a load. -/
theorem turns_eq_load {desk : Desk} {i : Nat} {path : String} (hi : desk.calls[i]? = some ⟨path, .asked⟩) :
    (desk.run [.turn i, .turn i, .turn i]).calls[i]? = some ⟨path, .answered (desk.loader.load desk.tree path).1⟩ ∧
    (desk.run [.turn i, .turn i, .turn i]).loader = (desk.loader.load desk.tree path).2 := by
  rcases desk.loader.load_cases desk.tree path with ⟨document, hk, h⟩ | ⟨document, hk, hf, h⟩ | ⟨fault, hk, hf, h⟩
  · rw [h]
    simp [run, step, turn, hi, hk, enter]
  · have hpath := desk.loader.fetch_path desk.tree path hf
    rw [h]
    simp [run, step, turn, hi, hk, hf, enter, Loader.keep, hpath]
  · rw [h]
    simp [run, step, turn, hi, hk, hf, enter]

/-- All calls for one name see one document. Whatever the order of their steps and of changes to the files,
the calls for a name that succeed hand out one document, with the text that the file had before the first
of them did; that document is kept, and nothing else is, since only a call that succeeds keeps what it
read; and every later load of the name gives it too, whatever has become of the file. -/
theorem calls_see_one_document (root : Option FilePath) (encoding : String) (codecs : Codecs) (tree : FileTree)
    (paths : List String) (course : List Happening) :
    let start := Desk.start ((Loader.new root encoding).withCodecs codecs) tree paths
    let desk := start.run course
    (∀ path document other, desk.Hands path document → desk.Hands path other → other = document) ∧
    (∀ path document, desk.Hands path document → document.path = path ∧
      ∃ before, before <+: course ∧ (∀ other, ¬ (start.run before).Hands path other) ∧
        ∃ codec bytes, codecs.find? encoding = some codec ∧
          (start.run before).tree.read (start.loader.resolve path) = .ok bytes ∧ codec.decode bytes = .ok document.text) ∧
    (∀ path document, desk.loader.kept? path = some document ↔ desk.Hands path document) ∧
    (∀ event, (desk.step event).loader = desk.loader ∨ ∃ i path document, event = .turn i ∧
      desk.calls[i]? = some ⟨path, .fetched document⟩ ∧
      (desk.step event).calls[i]? = some ⟨path, .answered (.ok document)⟩) ∧
    ∀ path document, desk.Hands path document → ∀ now, (desk.loader.load now path).1 = .ok document := by
  intro start desk
  have hstart : ∀ before, Sound start before := by
    refine sound_run (fun path => rfl) fun call hcall => ?_
    obtain ⟨path, -, rfl⟩ := List.mem_map.1 hcall
    rfl
  have hsound : Sound start course := hstart course
  refine ⟨fun path document other h h' => ?_, fun path document h => ?_, fun path document =>
    (hsound.handed path document).symm, fun event => ?_, fun path document h now => ?_⟩
  · have hk := (hsound.handed path document).1 h
    rw [(hsound.handed path other).1 h'] at hk
    exact Option.some.inj hk
  · obtain ⟨before, hbefore, hnone, hfetch⟩ := hsound.kept path document ((hsound.handed path document).1 h)
    obtain ⟨hpath, -, codec, bytes, hcodec, hread, hdecode⟩ := Loader.fetch_eq_ok_iff.1 hfetch
    refine ⟨hpath, before, hbefore, fun other hother => ?_, codec, bytes, hcodec, hread, hdecode⟩
    rw [((hstart before).handed path other).1 hother] at hnone
    cases hnone
  · cases event with
    | change tree => exact .inl rfl
    | turn i =>
      rcases turn_cases desk i with hsame | ⟨path, progress, next, hi, hturn, hcalls⟩
      · exact .inl (congrArg Desk.loader hsame)
      · rcases hturn.loader_cases with hsame | ⟨document, rfl, rfl⟩
        · exact .inl hsame
        · exact .inr ⟨i, path, document, rfl, hi, by rw [step, hcalls, if_pos rfl]⟩
  · have hk : desk.loader.kept? path = some document := (hsound.handed path document).1 h
    unfold Loader.load
    rw [hk]

/-- A file that holds one character. -/
def singleFile (byte : UInt8) : FileTree :=
  ⟨[(["a"], .file [byte])], []⟩

/-- Two calls miss the file and read it before and after a change; the one that read it later is the first
to come back. -/
def race : List Happening :=
  [.turn 0, .turn 1, .turn 0, .change (singleFile 50), .turn 1, .turn 1, .turn 0]

theorem race_calls_see_one_document :
    let start := Desk.start ((Loader.new none "utf-8").withCodecs Codecs.plain) (singleFile 49) ["a", "a"]
    (start.run race).calls[0]? = some ⟨"a", .answered (.ok ⟨"a", "2"⟩)⟩ ∧
    ((start.run race).loader.load (singleFile 49) "a").1 = .ok ⟨"a", "2"⟩ := by
  have hands : ((Desk.start ((Loader.new none "utf-8").withCodecs Codecs.plain) (singleFile 49) ["a", "a"]).run
      race).calls[0]? = some ⟨"a", .answered (.ok ⟨"a", "2"⟩)⟩ := by
    cbv
  exact ⟨hands, (calls_see_one_document none "utf-8" Codecs.plain (singleFile 49) ["a", "a"] race).2.2.2.2 "a" ⟨"a", "2"⟩
    ⟨0, hands⟩ (singleFile 49)⟩

end Desk

end Amend
