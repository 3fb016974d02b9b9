import FragmentSearch.Contents
import FragmentSearch.Proofs.EvidenceOrigins
import FragmentSearch.Proofs.ReportContents
import FragmentSearch.Proofs.WorkEffects

namespace FragmentSearch

open Work World

def Command.output : Command → Option String
  | .runs _ _ _ _ _ output => output
  | .sets _ _ output => output

def Command.streams : Command → List String
  | .runs .. => [associationFile, observationFile]
  | .sets .. => [associationFile]

variable {Place : Type} {place : String → Option Place} {stored : Place → Option (List UInt8)} {files : Files}
  {directory time text : String} {policy : Policy} {command : Command} {format : Format} {verbose : Bool}

namespace Files

def layoutAt (files : Files) (path : String) : Option LayoutLookup := (files.layout? path).bind Except.toOption

def beside (files : Files) : Command → List Companion
  | .runs directory _ _ _ database _ =>
    let path := joinPath directory database
    if (files.layoutAt path).isSome then files.companions path else []
  | .sets .. => []

variable [DecidableEq Place]

section Commands

variable {settings : Settings} {image output : Option String} {database : String}

end Commands

end Files

end FragmentSearch
