import ApiDoc.Command.Progress
import ApiDoc.Command.Session

/-!
# Reading sources

The step that both commands begin with: scan the source with the settings. A file that cannot be
opened or decoded is reported; a setting that makes no scan possible breaks off the run.
-/

namespace ApiDoc.Command

/-- How a failed scan ends: a fault of the files is reported, others break off the run. -/
def scanEnding (s : Session) (source : String) (e : ScanError) : Session × Ending :=
  let report := s.fail ("Scanning " ++ source ++ " failed: " ++ e.message)
  match e with
  | .sourceMissing _ => report
  | .decode _ => report
  | .codec _ => (s, .crash (.scan e))
  | .file f => if f.fault = .embeddedNul then (s, .crash (.scan e)) else report
  | .unknownCharset _ => (s, .crash (.scan e))
  | .nulInCharset => (s, .crash (.scan e))
  | .noWorkers => (s, .crash (.scan e))

/-- What the settings say about the reads of a scan. The encoding is not looked at when there is
nothing to read. -/
def readOptions (settings : Settings) (files : List String) (options : Scan.Options) :
    Except Settings.Misuse Scan.Options :=
  match settings.workerCount with
  | .error m => .error m
  | .ok workers =>
    if files.isEmpty || workers.any (· ≤ 0) then .ok { options with workers }
    else
      match settings.charsetName with
      | .error m => .error m
      | .ok charset => .ok { options with workers, charset }

/-- Read all files of a source that the settings do not leave out. -/
def readSources (place : Place) (settings : Settings) (singleStar : Bool) (source : String)
    (s : Session) : Step (List FileComments) :=
  match settings.excludedNames with
  | .error m => .crashed s (.misuse m)
  | .ok excluded =>
    let options : Scan.Options :=
      { codecs := place.codecs, mode := settings.commentMode singleStar, excluded }
    match Scan.selectFiles options s.tree place.cwd source with
    | .error e => .ended (scanEnding s source e)
    | .ok files =>
      let s := s.record (Progress.scanning source files.length)
      match readOptions settings files options with
      | .error m => .crashed s (.misuse m)
      | .ok options =>
        let run := Scan.scanFolderIn place.schedule options s.tree place.cwd source
        let s := s.records (run.announced.flatMap Progress.fileRead)
        match run.result with
        | .error e => .ended (scanEnding s source e)
        | .ok results => (s, .ok results)

end ApiDoc.Command
