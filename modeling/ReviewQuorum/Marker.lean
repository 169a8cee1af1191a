import ReviewQuorum.ChangeRequest
import ReviewQuorum.Command
import ReviewQuorum.Text.Blank

/-! # Reply markers

A reply ends with a marker, an HTML comment that holds the key of the source it answers. A fresh
start finds out from the markers in its own comments what has been answered already.

`keysIn` scans a text from the left. Where a marker begins, its key is what follows up to the next
blank, and the scan goes on behind the marker; where none begins, it goes on one character later. -/

namespace ReviewQuorum.Marker

/-- What a marker begins with. -/
def opening : String := "<!-- revgate-reply: "

/-- What a marker ends with. -/
def closing : String := " -->"

/-- The marker of a source. -/
def ofSource (s : Source) : String := opening ++ s.key ++ closing

/-- The key of the marker that a text begins with, and what stands behind the marker. -/
def here? (cs : List Char) : Option (List Char × List Char) :=
  match Text.dropPrefix? opening.toList cs with
  | none => none
  | some rest =>
    let key := rest.takeWhile fun c => !Text.isBlank c
    if key.isEmpty then none
    else
      (Text.dropPrefix? closing.toList (rest.dropWhile fun c => !Text.isBlank c)).map
        fun behind => (key, behind)

theorem length_lt_of_here? {cs key behind : List Char} (h : here? cs = some (key, behind)) :
    behind.length < cs.length := by
  unfold here? at h
  split at h
  · cases h
  · rename_i rest hrest
    have h1 := Text.dropPrefix?_eq_some_iff.1 hrest
    simp only at h
    split at h
    · cases h
    · obtain ⟨b, hb, hkb⟩ := Option.map_eq_some_iff.1 h
      cases hkb
      have h2 := Text.dropPrefix?_eq_some_iff.1 hb
      have h3 : rest = rest.takeWhile (fun c => !Text.isBlank c) ++
          rest.dropWhile (fun c => !Text.isBlank c) := List.takeWhile_append_dropWhile.symm
      rw [h2] at h3
      rw [h1, h3]
      simp [opening]
      omega

/-- The keys of the markers in a text, from left to right. -/
def keysIn (cs : List Char) : List String :=
  match h : here? cs with
  | some (key, behind) =>
    have := length_lt_of_here? h
    String.ofList key :: keysIn behind
  | none =>
    match cs with
    | [] => []
    | _ :: rest => keysIn rest
termination_by cs.length

/-- The keys of the sources that the comments of an account have answered. -/
def answeredKeys (comments : List Comment) (bot : Account) : List String :=
  (comments.filter fun c => c.author == bot).flatMap fun c => keysIn c.body.toList

end ReviewQuorum.Marker
