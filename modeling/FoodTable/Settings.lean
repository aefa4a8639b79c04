import FoodTable.CommandLine.DataFiles
import FoodTable.SocketAddress

/-!
# Settings of the service

Where the service listens and where its data files are.
-/

namespace FoodTable

open CommandLine

structure Settings where
  listen : SocketAddress := ⟨.v4 [0, 0, 0, 0], 0, 8787⟩
  files : DataFiles := {}
  deriving DecidableEq, Repr

namespace Settings

/-- The options of the service. -/
def options : List (Setter Settings) :=
  { name := "listen"
    summary := "Listen address"
    fallback := some "HYAKUMI_LISTEN"
    initial := some ({} : Settings).listen.text
    set := fun s settings =>
      match SocketAddress.ofText? s with
      | some listen => .ok { settings with listen }
      | none => .error .valueInvalid } ::
  DataFiles.options fun f settings => { settings with files := f settings.files }

/-- The settings that a command line gives. -/
def ofArguments (arguments : List String) (environment : String → Option String) :
    Except Rejection Settings :=
  CommandLine.read options {} arguments environment

end Settings

end FoodTable
