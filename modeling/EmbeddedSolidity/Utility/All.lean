import EmbeddedSolidity.Utility.Columns
import EmbeddedSolidity.Utility.Edit
import EmbeddedSolidity.Utility.Lines
import EmbeddedSolidity.Utility.Listing
import EmbeddedSolidity.Utility.Numbers
import EmbeddedSolidity.Utility.Search
import EmbeddedSolidity.Utility.Speech
import EmbeddedSolidity.Utility.Start

/-!
# All utilities

The utilities by their names.
-/

namespace EmbeddedSolidity.Utility

/-- The utilities by their names. -/
def all : List (String × Tool) :=
  [("true", fun _ => return 0), ("false", fun _ => return 1), ("sync", fun _ => return 0),
    ("echo", Speech.echo), ("printf", Speech.printf), ("test", Speech.test), ("[", Speech.bracket),
    ("yes", Speech.yes), ("id", Speech.id), ("uname", Speech.uname), ("tty", Speech.tty),
    ("whoami", Speech.telling "root"), ("logname", Speech.telling "root"),
    ("nproc", Speech.telling "1"), ("hostname", Speech.telling "localhost"),
    ("arch", Speech.telling "x86_64"), ("groups", Speech.telling "root"),
    ("basename", Names.basename), ("dirname", Names.dirname), ("readlink", Names.readlink),
    ("realpath", Names.realpath), ("pwd", Names.pwd), ("which", Names.which),
    ("mkdir", Files.mkdir), ("rmdir", Files.rmdir), ("rm", Files.rm), ("touch", Files.touch),
    ("chmod", Files.chmod), ("mktemp", Files.mktemp), ("cp", Files.cp), ("mv", Files.mv),
    ("ln", Files.ln), ("tee", Files.tee), ("ls", Listing.ls), ("find", Listing.find),
    ("cat", Content.cat), ("tac", Content.tac), ("rev", Content.rev), ("nl", Content.nl),
    ("head", Content.ends true), ("tail", Content.ends false), ("wc", Content.wc),
    ("cmp", Content.cmp), ("sha256sum", Content.sha256sum), ("sort", Lines.sort),
    ("uniq", Lines.uniq), ("comm", Lines.comm), ("cut", Columns.cut), ("tr", Columns.tr),
    ("paste", Columns.paste), ("fold", Columns.fold), ("od", Columns.od), ("grep", Search.grep),
    ("egrep", Search.grep), ("fgrep", Search.grep), ("sed", Edit.sed), ("seq", Numbers.seq),
    ("expr", Numbers.expr), ("env", Start.env), ("printenv", Start.printenv),
    ("xargs", Start.xargs), ("sleep", Start.sleep), ("timeout", Start.timeout),
    ("nohup", Start.nohup), ("nice", Start.nice)]

end EmbeddedSolidity.Utility
