import Genesis.Proofs.Cli.Defaults

/-!
A run that fails has touched no file, unless it was the files that it failed at. One that does not
fail has written all that it was asked for.
-/

namespace Genesis.Cli

namespace Options

end Options

end Genesis.Cli
