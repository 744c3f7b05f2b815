import KeyCustody.Console.Demo

/-!
# Runs of the tool

The choice of a command by its name. Without arguments, or with a name that no command has, the tool
describes itself.
-/

namespace KeyCustody.Console

/-- One run of the tool other than serving. -/
def run (m : Machine) : List String → Outcome
  | [] => ⟨0, usage, "", m.drive⟩
  | command :: arguments =>
    if command = "init" then
      match arguments with
      | serviceKey :: certificate :: privateKey :: _ => init m serviceKey certificate privateKey
      | _ => ⟨0, "", "Usage: kta init <kcm-pub> <kta-cert> <kta-key>\n", m.drive⟩
    else if command = "hash" then
      if arguments.isEmpty then ⟨0, "", "Usage: kta hash <ta-image>...\n", m.drive⟩
      else hash m arguments
    else if command = "status" then status m
    else if command = "reset" then reset m
    else if command = "demo" then demo m
    else if command = "help" ∨ command = "--help" ∨ command = "-h" then ⟨0, usage, "", m.drive⟩
    else ⟨0, usage, "Unknown command: " ++ command ++ "\n", m.drive⟩

end KeyCustody.Console
