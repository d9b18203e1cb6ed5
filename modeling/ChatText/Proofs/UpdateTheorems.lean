import ChatText.Command.Folder
import ChatText.Command.Perform
import ChatText.Proofs.EncodeTheorems
import ChatText.Proofs.MarkerTheorems
import ChatText.Proofs.ParagraphTheorems
import ChatText.Proofs.StandardTheorems

/-!
# Updated files and printed files

A file can be changed where it is, or its message can be printed with the same changes. The print
changes the message without the newline at its end and ends in a newline of its own; the update
changes the whole content and puts the newline back if it got lost.

* `Transform.applyToFile_append_newline` compares the two texts. Encoding trims the message, so the
  changes that follow do not see the newline; each other change keeps or drops it at the end.
* `Folder.read_write` and `textOfBytes_bytesOfText` give back what was written to a file.
* `Command.updated_eq_printed_iff` is both together, for the command on a folder: it says when the
  file holds what is printed. It does not where encoding and stripping empty the last line: the
  update cannot tell the newline in front of that line from the one behind the message, and loses
  one of them.
-/

namespace ChatText

/-! ## Single changes -/

theorem Marker.strip_append_newline (t : Text) :
    Marker.strip (t ++ ['\n']) = if isBlankText t then [] else Marker.strip t ++ ['\n'] := by
  have hblank : isBlankText (t ++ ['\n']) = isBlankText t := by
    rw [isBlankText, isBlankText, List.all_append]
    simp [show isBlank '\n' = true by decide]
  have hnewline : ¬ IsSymbol '\n' := by decide
  have hscan : Piece.scan any (t ++ ['\n']) = Piece.scan any t ++ [.symbol '\n'] :=
    scan_any_append (Or.inr (by simpa using hnewline))
  rw [strip, strip, hblank, hscan, List.filterMap_append]
  split
  · rfl
  · rfl

namespace Transform

/-- Fitting to a width, a newline behind a message ends up at the end of it. -/
theorem ensureFinalNewline_fit (width : Option Nat) (t : Text) :
    ensureFinalNewline (fit width (t ++ ['\n'])) = fit width t ++ ['\n'] := by
  cases width with
  | none => exact ensureFinalNewline_append_newline t
  | some width =>
    show ensureFinalNewline (Layout.fitWidth width _ (t ++ ['\n'])) = Layout.fitWidth width _ t ++ _
    rw [Layout.fitWidth_append_newline width rfl t, dropFinalNewline_append]

@[simp] theorem fit_nil (width : Option Nat) : fit width [] = [] := by
  cases width with
  | none => rfl
  | some width => simp [fit, Layout.fitWidth, lines, unlines, dropFinalNewline]

/-- Without encoding, the newline behind a message is kept or put back behind the changed one. -/
theorem ensureFinalNewline_apply {tr : Transform} (hencode : tr.encode = false) (r : Registry)
    (t : Text) : ensureFinalNewline (tr.apply r (t ++ ['\n'])) = tr.apply r t ++ ['\n'] := by
  have happly : ∀ t, tr.apply r t = fit tr.width (onlyIf tr.strip Marker.strip t) := by
    intro t
    rw [apply, hencode]
    rfl
  rw [happly, happly]
  cases hstrip : tr.strip with
  | false => exact ensureFinalNewline_fit tr.width t
  | true =>
    show ensureFinalNewline (fit tr.width (Marker.strip (t ++ ['\n'])))
      = fit tr.width (Marker.strip t) ++ ['\n']
    rw [Marker.strip_append_newline]
    by_cases hblank : isBlankText t = true
    · -- a blank message is stripped of its newline as well
      have hstrip : Marker.strip t = [] := by rw [Marker.strip, if_pos hblank]
      rw [if_pos hblank, hstrip, fit_nil]
      rfl
    · rw [if_neg hblank]
      exact ensureFinalNewline_fit tr.width (Marker.strip t)

/-- An encoded message ends with no newline, whatever it is fitted to, if no markers go. -/
theorem getLast?_apply_ne_newline {tr : Transform} (hencode : tr.encode = true)
    (hstrip : tr.strip = false) (r : Registry) (t : Text) :
    (tr.apply r t).getLast? ≠ some '\n' := by
  have hends : ∀ c ∈ (ChatText.encode r Link.isWeb t).getLast?, isBlank c = false :=
    fun _ => isBlank_of_mem_getLast?_trim
  have happly : ∀ c ∈ (tr.apply r t).getLast?, isBlank c = false := by
    rw [apply, hencode, hstrip]
    cases tr.width with
    | none => exact hends
    | some width => exact Layout.fitWidth_ends_with_no_blank hends width _
  intro hnewline
  exact absurd (happly '\n' hnewline) (by decide)

/-- The content that an update leaves in a file is the changed message with a newline behind it,
unless the message that was encoded and stripped ends with a newline already. -/
theorem applyToFile_append_newline (r : Registry) (tr : Transform) (t : Text) :
    tr.applyToFile r (t ++ ['\n'])
      = if tr.encode ∧ tr.strip ∧ (tr.apply r t).getLast? = some '\n' then tr.apply r t
        else tr.apply r t ++ ['\n'] := by
  rw [applyToFile, if_pos List.getLast?_concat]
  cases hencode : tr.encode with
  | false =>
    rw [ensureFinalNewline_apply hencode, if_neg (by simp)]
  | true =>
    have happly : tr.apply r (t ++ ['\n']) = tr.apply r t := by
      have hencoded : ∀ t, onlyIf true (ChatText.encode r Link.isWeb) t
          = ChatText.encode r Link.isWeb t := fun t => rfl
      rw [apply, apply, hencode, hencoded, hencoded, encode_append_newline]
    rw [happly]
    cases hstrip : tr.strip with
    | false =>
      rw [ensureFinalNewline, if_neg (getLast?_apply_ne_newline hencode hstrip r t),
        if_neg (by simp)]
    | true => simp [ensureFinalNewline]

end Transform

/-! ## Contents of files -/

namespace Command

/-- The bytes of a text encode that text. -/
@[simp] theorem textOfBytes_bytesOfText (t : Text) : textOfBytes (bytesOfText t) = .ok t := by
  have hvalid : String.fromUTF8? (String.ofList t).toUTF8 = some (String.ofList t) :=
    dif_pos (String.ofList t).isValidUTF8
  rw [textOfBytes, bytesOfText, hvalid]
  show Except.ok (String.ofList t).toList = .ok t
  rw [String.toList_ofList]

namespace Folder

variable {f : Folder}

/-- A file that is replaced is found where it was, and every other one as before. -/
theorem lookup_map_replace (entries : List (Text × ByteArray)) (name : Text) (bytes : ByteArray)
    (name' : Text) :
    (entries.map fun e => if e.1 = name then (name, bytes) else e).lookup name'
      = if name' = name then (entries.lookup name').map fun _ => bytes
        else entries.lookup name' := by
  induction entries with
  | nil => simp
  | cons e entries ih =>
    rw [List.map_cons, Registry.lookup_cons_eq_ite, Registry.lookup_cons_eq_ite, ih]
    by_cases hkey : e.1 = name
    · rw [if_pos hkey, hkey]
      by_cases hname : name' = name
      · simp [hname]
      · simp [hname]
    · rw [if_neg hkey]
      by_cases hname : name' = name
      · rw [if_pos hname, if_pos hname, if_neg fun h => hkey (h.symm.trans hname),
          if_neg fun h => hkey (h.symm.trans hname)]
      · rw [if_neg hname, if_neg hname]

/-- In the folder with a changed file, that file is found and every other one as before. -/
theorem content?_put (f : Folder) (name : Text) (bytes : ByteArray) (name' : Text) :
    (f.put name bytes).content? name' = if name' = name then some bytes else f.content? name' := by
  unfold put
  by_cases hthere : (f.content? name).isSome = true
  · rw [if_pos hthere]
    show List.lookup name' _ = _
    rw [lookup_map_replace]
    by_cases hname : name' = name
    · obtain ⟨old, hold⟩ := Option.isSome_iff_exists.1 hthere
      rw [content?] at hold
      rw [if_pos hname, if_pos hname, hname, hold, Option.map_some]
    · rw [if_neg hname, if_neg hname, content?]
  · rw [if_neg hthere]
    show List.lookup name' _ = _
    rw [List.lookup_append, Registry.lookup_cons_eq_ite, List.lookup_nil]
    by_cases hname : name' = name
    · have hold : f.entries.lookup name = none := Option.not_isSome_iff_eq_none.1 hthere
      rw [if_pos hname, if_pos hname, hname, hold, Option.none_or]
    · rw [if_neg hname, if_neg hname, Option.or_none, content?]

/-- Paths lead to the same file in folders with files of the same names. -/
theorem follow_congr {g : Folder}
    (h : ∀ name, (f.content? name).isNone = (g.content? name).isNone) (place : Place)
    (parts : List Text) : f.follow place parts = g.follow place parts := by
  induction parts generalizing place with
  | nil => rfl
  | cons part rest ih => simp only [follow, ih, h]

/-- There is a file where a path leads to. -/
theorem isNone_content?_of_follow {place : Place} {parts : List Text} {name : Text}
    (h : f.follow place parts = .ok name) : (f.content? name).isNone = false := by
  induction parts generalizing place with
  | nil => cases h
  | cons part rest ih =>
    rw [follow] at h
    split at h
    · exact ih h
    split at h
    · exact ih h
    split at h
    · cases h
    split at h
    · cases h
    rename_i hthere
    split at h
    · cases h
      exact Bool.eq_false_iff.2 fun hnone => hthere (Or.inr hnone)
    · cases h

/-- A path leads to the same file after the one that it leads to was changed. -/
theorem locate_put {path name : Text} (h : f.locate path = .ok name) (bytes : ByteArray) :
    (f.put name bytes).locate path = .ok name := by
  rw [← h]
  unfold locate at h ⊢
  split at h
  · cases h
  · rename_i hshort
    rw [if_neg hshort, if_neg hshort]
    refine follow_congr (fun name' => ?_) _ _
    rw [content?_put]
    split
    · rename_i hname
      rw [hname, isNone_content?_of_follow h]
      rfl
    · rfl

/-- A file that can be read can be written, and holds then what was written. -/
theorem read_write {path : Text} {old : ByteArray} (h : f.read path = .ok old)
    (bytes : ByteArray) : ∃ g, f.write path bytes = .ok g ∧ g.read path = .ok bytes := by
  unfold read at h
  cases hname : f.locate path with
  | error e =>
    rw [hname] at h
    cases h
  | ok name =>
    refine ⟨f.put name bytes, ?_, ?_⟩
    · rw [write, hname]
      rfl
    · have hput : (f.put name bytes).content? name = some bytes := by
        rw [content?_put, if_pos rfl]
      simp only [read, locate_put hname, bind, Except.bind, hput]

end Folder

/-! ## The command -/

variable {f : Folder} {path content t : Text}

/-- Printing one file shows its changed message and leaves the folder as it is. -/
theorem run_printFiles (r : Registry) (tr : Transform) (view : View)
    (hread : f.read path >>= textOfBytes = .ok content) :
    (perform Folder.files r (.printFiles tr view [path])).run f
      = ({ stdout := printed r tr view content }, f) := by
  simp only [perform, printFiles, Folder.files, StateT.run_bind, StateT.run_get, pure_bind,
    StateT.run_pure, hread, Outcome.ofPrint, List.append_nil]
  rfl

/-- What is printed of a message is the changed message and a newline behind it. -/
theorem run_printFiles_text (r : Registry) (tr : Transform)
    (hread : f.read path >>= textOfBytes = .ok (t ++ ['\n'])) :
    (perform Folder.files r (.printFiles tr .text [path])).run f
      = ({ stdout := tr.apply r t ++ ['\n'] }, f) := by
  rw [run_printFiles r tr .text hread, printed, dropFinalNewline_append_newline, View.show]

/-- Updating one file prints nothing, and the file holds its changed content then. -/
theorem run_updateFiles (r : Registry) (tr : Transform)
    (hread : f.read path >>= textOfBytes = .ok content) :
    ∃ g, (perform Folder.files r (.updateFiles tr [path])).run f = ({}, g)
      ∧ g.read path >>= textOfBytes = .ok (tr.applyToFile r content) := by
  obtain ⟨old, hold⟩ : ∃ old, f.read path = .ok old := by
    cases hold : f.read path with
    | error e =>
      rw [hold] at hread
      cases hread
    | ok old => exact ⟨old, rfl⟩
  obtain ⟨g, hwrite, hreads⟩ := Folder.read_write hold (bytesOfText (tr.applyToFile r content))
  refine ⟨g, ?_, ?_⟩
  · simp only [perform, updateFiles, updateFile, Folder.files, StateT.run_bind, StateT.run_get,
      pure_bind, StateT.run_pure, hread, hwrite, StateT.run_set, Outcome.ofPrint]
    rfl
  · rw [hreads]
    exact textOfBytes_bytesOfText _

/-- A newline stands in front of the last one if the text in front ends with one. -/
theorem newlines_suffix_iff (t : Text) :
    ['\n', '\n'] <:+ t ++ ['\n'] ↔ t.getLast? = some '\n' := by
  constructor
  · rintro ⟨s, hs⟩
    have hconcat : (s ++ ['\n']) ++ ['\n'] = t ++ ['\n'] := by
      rw [← hs, List.append_assoc, List.singleton_append]
    rw [← List.append_cancel_right hconcat, List.getLast?_concat]
  · intro h
    obtain ⟨s, rfl⟩ := List.getLast?_eq_some_iff.1 h
    exact ⟨s, by rw [List.append_assoc, List.singleton_append]⟩

/-- **Updates and prints.** With the content of a file ending in a newline both go well. The file
then holds what is printed, unless the message was encoded and stripped and ends with a newline of
its own, in front of the one that is printed behind it. -/
theorem updated_eq_printed_iff (r : Registry) (tr : Transform)
    (hread : f.read path >>= textOfBytes = .ok content) (hnewline : content.getLast? = some '\n') :
    let print := ((perform Folder.files r (.printFiles tr .text [path])).run f).1
    let update := (perform Folder.files r (.updateFiles tr [path])).run f
    print.exitCode = 0 ∧ update.1.exitCode = 0
      ∧ (update.2.read path >>= textOfBytes = .ok print.stdout
        ↔ ¬ (tr.encode ∧ tr.strip ∧ ['\n', '\n'] <:+ print.stdout)) := by
  intro print update
  obtain ⟨t, rfl⟩ := List.getLast?_eq_some_iff.1 hnewline
  have hprint : print = { stdout := tr.apply r t ++ ['\n'] } :=
    congrArg Prod.fst (run_printFiles_text r tr hread)
  obtain ⟨g, hrun, hfile⟩ := run_updateFiles r tr hread
  have hupdate : update = ({}, g) := hrun
  refine ⟨by rw [hprint], by rw [hupdate], ?_⟩
  rw [hupdate, hprint, hfile, Except.ok.injEq, newlines_suffix_iff,
    Transform.applyToFile_append_newline]
  by_cases hends : tr.encode = true ∧ tr.strip = true ∧ (tr.apply r t).getLast? = some '\n'
  · rw [if_pos hends]
    refine iff_of_false (fun hsame => ?_) (not_not_intro hends)
    exact absurd (congrArg List.length hsame) (by simp)
  · rw [if_neg hends]
    exact iff_of_true rfl hends

/-- A folder with one message in it. -/
def Folder.ofMessage (content : Text) : Folder :=
  { entries := [("message".toList, bytesOfText content)] }

theorem Folder.read_ofMessage (content : Text) :
    (Folder.ofMessage content).read "message".toList = .ok (bytesOfText content) := rfl

theorem Folder.text_ofMessage (content : Text) :
    (Folder.ofMessage content).read "message".toList >>= textOfBytes = .ok content := by
  rw [read_ofMessage]
  exact textOfBytes_bytesOfText content

/-- With every change that there is. -/
theorem updated_eq_printed_all_changes :
    let f := Folder.ofMessage "ab :)  cd\t:-(ef\n".toList
    let path := "message".toList
    let tr : Transform := { encode := true, strip := true, width := some 5 }
    let print := ((perform Folder.files .standard (.printFiles tr .text [path])).run f).1
    let update := (perform Folder.files .standard (.updateFiles tr [path])).run f
    f.read path >>= textOfBytes = .ok "ab :)  cd\t:-(ef\n".toList
      ∧ "ab :)  cd\t:-(ef\n".toList.getLast? = some '\n'
      ∧ print.stdout = "ab cd\nef\n".toList
      ∧ update.2.read path >>= textOfBytes = .ok print.stdout := by
  intro f path tr print update
  have hread : f.read path >>= textOfBytes = .ok ("ab :)  cd\t:-(ef".toList ++ ['\n']) :=
    Folder.text_ofMessage _
  have hnewline : ("ab :)  cd\t:-(ef".toList ++ ['\n']).getLast? = some '\n' := by decide
  have happly : tr.apply .standard "ab :)  cd\t:-(ef".toList = "ab cd\nef".toList := by
    show Layout.fitWidth 5 _ (Marker.strip (ChatText.encode .standard Link.isWeb _)) = _
    rw [ChatText.encode, Registry.substitutions_standard]
    decide +kernel
  have hprint : print.stdout = "ab cd\nef\n".toList := by
    have hrun := congrArg (·.1.stdout) (run_printFiles_text .standard tr hread)
    rw [show print.stdout = tr.apply .standard _ ++ ['\n'] from hrun, happly]
    rfl
  obtain ⟨-, -, hagree⟩ := updated_eq_printed_iff .standard tr hread hnewline
  refine ⟨hread, hnewline, hprint, hagree.2 ?_⟩
  rw [show _ = "ab cd\nef\n".toList from hprint]
  decide

/-- The last line holds nothing but a glyph, so encoding and stripping leave a message that ends
with a newline. The update takes it for the one behind the message, and the last line is lost. -/
theorem updated_ne_printed_glyph_on_last_line :
    let f := Folder.ofMessage "a\n:)\n".toList
    let path := "message".toList
    let tr : Transform := { encode := true, strip := true }
    let print := ((perform Folder.files .standard (.printFiles tr .text [path])).run f).1
    let update := (perform Folder.files .standard (.updateFiles tr [path])).run f
    f.read path >>= textOfBytes = .ok "a\n:)\n".toList
      ∧ "a\n:)\n".toList.getLast? = some '\n'
      ∧ print.stdout = "a\n\n".toList
      ∧ update.2.read path >>= textOfBytes = .ok "a\n".toList
      ∧ update.2.read path >>= textOfBytes ≠ .ok print.stdout := by
  intro f path tr print update
  have hread : f.read path >>= textOfBytes = .ok ("a\n:)".toList ++ ['\n']) :=
    Folder.text_ofMessage _
  have happly : tr.apply .standard "a\n:)".toList = "a\n".toList := by
    show Marker.strip (ChatText.encode .standard Link.isWeb "a\n:)".toList) = _
    rw [ChatText.encode, Registry.substitutions_standard]
    decide +kernel
  have hprint : print.stdout = "a\n\n".toList := by
    have hrun := congrArg (·.1.stdout) (run_printFiles_text .standard tr hread)
    rw [show print.stdout = tr.apply .standard "a\n:)".toList ++ ['\n'] from hrun, happly]
    rfl
  have hupdate : update.2.read path >>= textOfBytes = .ok "a\n".toList := by
    obtain ⟨g, hrun, hfile⟩ := run_updateFiles .standard tr hread
    rw [show update = ({}, g) from hrun, hfile, Transform.applyToFile_append_newline, happly]
    exact congrArg Except.ok (if_pos ⟨rfl, rfl, by decide⟩)
  refine ⟨hread, by decide, hprint, hupdate, ?_⟩
  rw [hprint, hupdate]
  simp

end Command
end ChatText
